/-
  OpenGpos.Fat.Scan — a directory scan as a walk over entry positions. `Pos.behind` is the
  position that the iterator looks at after `p`; the FAT alone says whether the walk ends.
  An iterator is `Ahead` of a position, and a turn looks at it or stops (`dirTurn_ahead`),
  so a scan whose walk ends returns (`scanDir_settles`), and with it `fat32_open`
  (`open_returns`), whatever SD reads fail.
-/
import OpenGpos.Fat.Cursor
import OpenGpos.Fat.Handles
import OpenGpos.Lib.Fuel

namespace OpenGpos.Fat

open OpenGpos.Lib.Fuel

/-- Entry `entry` of sector `sector` of a cluster. -/
structure Pos where
  cluster : UInt32
  sector : Nat
  entry : Nat
  deriving DecidableEq

/-- The first position of a directory. -/
def Pos.start (c : UInt32) : Pos := ⟨c, 0, 0⟩

def Pos.buf (env : Env) (v : VolumeInfo) (p : Pos) : Buf := dirEntry env v p.cluster p.sector p.entry

/-- The entries that the iterator looks at in a sector; the first one it never skips. -/
def VolumeInfo.perSector (v : VolumeInfo) : Nat := max 1 (v.bytesPerSector.toNat / 32)

/-- The position behind `p`: in the sector, in the cluster, in the chain. -/
def Pos.behind (env : Env) (v : VolumeInfo) (p : Pos) : Option Pos :=
  if p.entry + 1 < v.perSector then some { p with entry := p.entry + 1 }
  else if p.sector + 1 < v.sectorsPerCluster.toNat then some ⟨p.cluster, p.sector + 1, 0⟩
  else if v.Valid p.cluster ∧ (fatResult (fatEntry env v p.cluster)).1 = .success then
    some (.start (fatResult (fatEntry env v p.cluster)).2)
  else none

/-- Where a scan goes on from `p`: nowhere from an end mark. -/
def Pos.next (env : Env) (v : VolumeInfo) (p : Pos) : Option Pos := if p.buf env v 0 = 0 then none else p.behind env v

/-- The positions that a path resolution can get to. -/
inductive Visits (env : Env) (v : VolumeInfo) : Pos → Prop
  | root : Visits env v (.start v.rootDirCluster)
  | next {p q : Pos} : Visits env v p → p.next env v = some q → Visits env v q
  | sub {p : Pos} : Visits env v p → Reported (p.buf env v) → IsDir (p.buf env v) →
      Visits env v (.start (entryCluster (p.buf env v)))

/-- No scan goes on for ever. -/
def ScansEnd (env : Env) (v : VolumeInfo) : Prop := ∀ p, Visits env v p → ∃ n, EndsIn (Pos.next env v) n (some p)

/-- A sector has the entries that the code looks for in it. -/
structure VolumeInfo.Readable (v : VolumeInfo) : Prop extends v.Sectors where
  entries : v.bytesPerSector.toNat / 32 ≤ 16

/-- The iterator is to look at `o` next. -/
inductive Ahead (env : Env) (v : VolumeInfo) : DirIter → Option Pos → Prop
  | fresh {c : UInt32} {iter : DirIter} : Fresh c iter → Ahead env v iter (some (.start c))
  | past {p : Pos} {iter : DirIter} : p.sector < v.sectorsPerCluster.toNat → p.entry < v.perSector →
      Inside env v p.cluster p.sector (p.entry + 1) iter → Ahead env v iter (p.behind env v)

section
variable {env : Env} {w : World} {iter : DirIter}

theorem Ahead.checksum {v : VolumeInfo} {o : Option Pos} (h : Ahead env v iter o) (k : UInt8) :
    Ahead env v { iter with lfnChecksum := k } o := by
  cases h with
  | fresh hf => exact .fresh ⟨hf.cluster, hf.sector, hf.valid⟩
  | past hs he hi => exact .past hs he ⟨hi.cluster, hi.sector, hi.entry, hi.valid, hi.buffer⟩

/-- A turn that looks at `q`. -/
def LooksAt (env : Env) (iter : DirIter) (l : LfnLocals) (info : FileInfo) (w : World) (q : Pos) : Prop :=
  ∃ e iter' w', Agree e (q.buf env w.vol) ∧ Ahead env w.vol iter' (q.behind env w.vol) ∧ w'.vol = w.vol ∧
    dirTurn env iter l info w = .ok (entryTurn e iter' l info, w')

theorem Takes.looksAt {l : LfnLocals} {info : FileInfo} {c : UInt32} {s k : Nat} (h : Takes env iter l info w c s k)
    (hs : s < w.vol.sectorsPerCluster.toNat) (hk : k < w.vol.perSector) : LooksAt env iter l info w ⟨c, s, k⟩ := by
  obtain ⟨e, iter', w', he, hi, hvol, -, ht⟩ := h
  exact ⟨e, iter', w', he, .past (p := ⟨c, s, k⟩) hs hk hi, hvol, ht⟩

/-- A turn looks at the position ahead, or ends the call: at the end of the walk or because
    an SD read failed. -/
theorem dirTurn_ahead (hv : w.vol.Readable) {o : Option Pos} (h : Ahead env w.vol iter o) (l : LfnLocals) (info : FileInfo) :
    (∃ q, o = some q ∧ LooksAt env iter l info w q) ∨
    ((o = none ∨ ∃ k, env.fails k = true) ∧ ∃ res, res ≠ .success ∧ StopsWith env iter l info w res) := by
  have hspc := hv.spc_pos
  have hps : w.vol.perSector = max 1 (w.vol.bytesPerSector.toNat / 32) := rfl
  have hent := hv.entries
  -- a sector of a cluster is read, or the read fails
  have sector : ∀ {c s}, s < w.vol.sectorsPerCluster.toNat →
      (if env.fails w.calls.length then StopsWith env iter l info w .readFail else Takes env iter l info w c s 0) →
      (LooksAt env iter l info w ⟨c, s, 0⟩) ∨
      ((∃ k, env.fails k = true) ∧ ∃ res, res ≠ .success ∧ StopsWith env iter l info w res) := by
    intro c s hs ht
    by_cases hf : env.fails w.calls.length = true
    · rw [if_pos hf] at ht
      exact Or.inr ⟨⟨_, hf⟩, _, by decide, ht⟩
    · rw [if_neg hf] at ht
      exact Or.inl (ht.looksAt hs (by omega))
  cases h with
  | @fresh c _ hf =>
    have hs : (iter.currentSectorInCluster + 1).toNat = 0 := by rw [hf.sector]; rfl
    rcases sector hspc (dirTurn_sector l info env (Or.inl hf.valid) hf.cluster hs hspc) with ht | ⟨hk, ht⟩
    · exact Or.inl ⟨_, rfl, ht⟩
    · exact Or.inr ⟨Or.inr hk, ht⟩
  | @past p _ hsec hpe hi =>
    have hlt := w.vol.sectorsPerCluster.toNat_lt
    by_cases hin : p.entry + 1 < w.vol.perSector
    · have ht := dirTurn_here l info hi (by omega) (by omega)
      exact Or.inl ⟨⟨p.cluster, p.sector, p.entry + 1⟩, if_pos hin, ht.looksAt hsec hin⟩
    have hload : w.vol.bytesPerSector.toNat / 32 ≤ p.entry + 1 := by omega
    by_cases hnext : p.sector + 1 < w.vol.sectorsPerCluster.toNat
    · have hs : (iter.currentSectorInCluster + 1).toNat = p.sector + 1 := by
        rw [UInt32.toNat_add, hi.sector]
        show (p.sector + 1) % 2 ^ 32 = _
        omega
      have ho : p.behind env w.vol = some ⟨p.cluster, p.sector + 1, 0⟩ := by
        rw [Pos.behind, if_neg hin, if_pos hnext]
      rcases sector hnext (dirTurn_sector l info env (Or.inr (by rw [hi.entry]; exact hload)) hi.cluster hs hnext)
        with ht | ⟨hk, ht⟩
      · exact Or.inl ⟨_, ho, ht⟩
      · exact Or.inr ⟨Or.inr hk, ht⟩
    have ho : p.behind env w.vol =
        if w.vol.Valid p.cluster ∧ (fatResult (fatEntry env w.vol p.cluster)).1 = .success then
          some (.start (fatResult (fatEntry env w.vol p.cluster)).2) else none := by
      rw [Pos.behind, if_neg hin, if_neg hnext]
    rcases dirTurn_link l info hv.toSectors hi hload (by omega) with ⟨hval, ht⟩ | ⟨-, hf, ht⟩ | ⟨hval, -, ht⟩
    · exact Or.inr ⟨Or.inl (by rw [ho, if_neg fun h => hval h.1]), _, by decide, ht⟩
    · exact Or.inr ⟨Or.inr ⟨_, hf⟩, _, by decide, ht⟩
    · by_cases hr : (fatResult (fatEntry env w.vol p.cluster)).1 = .success
      · rw [if_neg (by simpa using hr)] at ht
        by_cases hf : env.fails (w.calls.length + 1) = true
        · rw [if_pos hf] at ht
          exact Or.inr ⟨Or.inr ⟨_, hf⟩, _, by decide, ht⟩
        · rw [if_neg hf] at ht
          exact Or.inl ⟨_, by rw [ho, if_pos ⟨hval, hr⟩]; rfl, ht.looksAt hspc (by omega)⟩
      · rw [if_pos hr] at ht
        exact Or.inr ⟨Or.inl (by rw [ho, if_neg fun h => hr h.2]), _, hr, ht⟩

end

/-! ## A scan returns -/

/-- At most `n` positions are ahead of the iterator. -/
def Scanning (env : Env) (v : VolumeInfo) (n : Nat) (iter : DirIter) : Prop :=
  ∃ o, EndsIn (Pos.next env v) n o ∧ (∀ q, o = some q → Visits env v q) ∧ Ahead env v iter o

theorem ScansEnd.scanning {env : Env} {v : VolumeInfo} (h : ScansEnd env v) {c : UInt32} (hc : Visits env v (.start c))
    {iter : DirIter} (hf : Fresh c iter) : ∃ n, Scanning env v n iter := by
  obtain ⟨n, hn⟩ := h _ hc
  exact ⟨n, some (.start c), hn, fun q hq => by cases hq; exact hc, .fresh hf⟩

section
variable {env : Env} {v : VolumeInfo} (hv : v.Readable)
include hv

theorem readDirLoop_ends (n : Nat) : ∀ {iter : DirIter} {w : World}, w.vol = v → Scanning env v n iter →
    ∀ (l : LfnLocals) (info : FileInfo), ∃ res iter' info' w', w'.vol = v ∧
      (∀ fuel, n < fuel → readDirLoop env fuel iter l info w = .ok ((res, iter', info'), w')) ∧
      (res = .success → (∃ m, m < n ∧ Scanning env v m iter') ∧
        (info'.isDirectory = true → Visits env v (.start info'.firstCluster))) := by
  induction n with
  | zero =>
    rintro iter w hw ⟨o, ho, -, ha⟩ l info
    subst hw
    obtain rfl : o = none := ho
    rcases dirTurn_ahead hv ha l info with ⟨q, hq, -⟩ | ⟨-, res, hr, iter', w', hvol, ht⟩
    · cases hq
    · refine ⟨res, iter', info, w', hvol, fun fuel hf => ?_, fun hs => absurd hs hr⟩
      obtain ⟨fuel, rfl⟩ := Nat.exists_eq_add_one_of_ne_zero (show fuel ≠ 0 by omega)
      exact readDirLoop_done ht fuel
  | succ n ih =>
    rintro iter w hw ⟨o, ho, hvis, ha⟩ l info
    subst hw
    rcases dirTurn_ahead hv ha l info with ⟨q, rfl, e, iter', w', he, ha', hvol, ht⟩ | ⟨-, res, hr, iter', w', hvol, ht⟩
    · have hq := hvis q rfl
      by_cases h0 : q.buf env w.vol 0 = 0
      · refine ⟨.noMoreEntries, iter', info, w', hvol, fun fuel hf => ?_, fun hs => by cases hs⟩
        obtain ⟨fuel, rfl⟩ := Nat.exists_eq_add_one_of_ne_zero (show fuel ≠ 0 by omega)
        rw [entryTurn_ends he iter' l info h0] at ht
        exact readDirLoop_done ht fuel
      have hnext : q.next env w.vol = q.behind env w.vol := by rw [Pos.next, if_neg h0]
      have hscan : ∀ k, Scanning env w.vol n { iter' with lfnChecksum := k } := by
        intro k
        have ho' : EndsIn (Pos.next env w.vol) n (q.next env w.vol) := ho
        rw [hnext] at ho'
        exact ⟨q.behind env w.vol, ho', fun q' hq' => .next hq (hnext.trans hq'), ha'.checksum k⟩
      by_cases hr : Reported (q.buf env w.vol)
      · have hdec := sfnEntry_decodes he iter'.lfnChecksum l info
        refine ⟨.success, _, sfnEntry e iter'.lfnChecksum l info, w', hvol, fun fuel hf => ?_,
          fun _ => ⟨⟨n, by omega, hscan 0⟩, fun hd => ?_⟩⟩
        · obtain ⟨fuel, rfl⟩ := Nat.exists_eq_add_one_of_ne_zero (show fuel ≠ 0 by omega)
          rw [entryTurn_reports he iter' l info hr] at ht
          exact readDirLoop_done ht fuel
        · rw [hdec.firstCluster]
          exact .sub hq hr (hdec.isDirectory.mp hd)
      · obtain ⟨k, l', info', e'⟩ := entryTurn_skips he iter' l info h0 hr
        obtain ⟨res, iter2, info2, w2, hvol2, e2, hok⟩ := ih hvol (hscan k) l' info'
        refine ⟨res, iter2, info2, w2, hvol2, fun fuel hf => ?_, fun hs => ?_⟩
        · obtain ⟨fuel, rfl⟩ := Nat.exists_eq_add_one_of_ne_zero (show fuel ≠ 0 by omega)
          rw [e'] at ht
          rw [readDirLoop_again ht]
          exact e2 fuel (by omega)
        · obtain ⟨⟨m, hm, hsm⟩, hd⟩ := hok hs
          exact ⟨⟨m, by omega, hsm⟩, hd⟩
    · refine ⟨res, iter', info, w', hvol, fun fuel hf => ?_, fun hs => absurd hs hr⟩
      obtain ⟨fuel, rfl⟩ := Nat.exists_eq_add_one_of_ne_zero (show fuel ≠ 0 by omega)
      exact readDirLoop_done ht fuel

theorem fatReadNextDirEntry_ends {n : Nat} {iter : DirIter} {w : World} (hw : w.vol = v) (hs : Scanning env v n iter)
    (info : FileInfo) : ∃ res iter' info' w', w'.vol = v ∧
      (∀ fuel, n < fuel → fatReadNextDirEntry env fuel iter info w = .ok ((res, iter', info'), w')) ∧
      (res = .success → (∃ m, m < n ∧ Scanning env v m iter') ∧
        (info'.isDirectory = true → Visits env v (.start info'.firstCluster))) := by
  have hi : w.vol.isInitialized = true := by rw [hw]; exact hv.initialized
  obtain ⟨res, iter', info', w', hvol, e, hok⟩ :=
    readDirLoop_ends hv n (w := { w with frames := w.frames + 1 }) hw hs (env.stack w.frames) info
  refine ⟨res, iter', info', w', hvol, fun fuel hf => ?_, hok⟩
  simp only [fatReadNextDirEntry, bind_apply, get_apply, ok_bind, hi, Bool.not_true, Bool.false_eq_true, if_false,
    modify_apply, e fuel hf]

/-- What a search of a directory may come to: another directory only for a component that is
    not the last. -/
def ScanEnds (env : Env) (v : VolumeInfo) (final : Bool) : Scan → Prop
  | .enter iter _ => final = false ∧ ∃ c, iter = freshIter c ∧ Visits env v (.start c)
  | _ => True

theorem scanDir_ends (name : List UInt8) (final : Bool) (n : Nat) : ∀ {iter : DirIter} {w : World}, w.vol = v →
    Scanning env v n iter → ∀ info : FileInfo, ∃ r w', w'.vol = v ∧ ScanEnds env v final r ∧
      ∀ fuel, n + 1 < fuel → scanDir env fuel name final iter info w = .ok (r, w') := by
  induction n using Nat.strongRecOn with
  | ind n ih =>
    intro iter w hw hs info
    obtain ⟨res, iter1, info1, w1, hvol, e, hok⟩ := fatReadNextDirEntry_ends hv hw hs info
    -- `e` gives the first call of the iterator for any fuel that is enough
    have pre : ∀ {r w'}, (∀ fuel, n < fuel → scanDir env (fuel + 1) name final iter info w = .ok (r, w')) →
        ∀ fuel, n + 1 < fuel → scanDir env fuel name final iter info w = .ok (r, w') := by
      intro r w' h fuel hf
      obtain ⟨fuel, rfl⟩ := Nat.exists_eq_add_one_of_ne_zero (show fuel ≠ 0 by omega)
      exact h fuel (by omega)
    by_cases hs' : res = .success
    case neg => exact ⟨.ret (refusal res), w1, hvol, trivial, pre fun fuel hf => scanDir_refused (e fuel hf) hs'⟩
    obtain ⟨⟨m, hm, hsm⟩, hdir⟩ := hok hs'
    subst hs'
    have again (hn : Libc.Strings.strcmp info1.filename name 0 ≠ 0 ∨ info1.isDirectory = false ∧ final = false) :
        ∃ r w', w'.vol = v ∧ ScanEnds env v final r ∧
          ∀ fuel, n + 1 < fuel → scanDir env fuel name final iter info w = .ok (r, w') := by
      obtain ⟨r, w2, hvol2, hr, e2⟩ := ih m hm hvol hsm info1
      exact ⟨r, w2, hvol2, hr, pre fun fuel hf => by rw [scanDir_other (e fuel hf) hn, e2 fuel (by omega)]⟩
    by_cases hc : Libc.Strings.strcmp info1.filename name 0 = 0
    case neg => exact again (Or.inl hc)
    cases hd : info1.isDirectory with
    | true =>
      cases final with
      | true => exact ⟨.ret .fileNotFound, w1, hvol, trivial, pre fun fuel hf => scanDir_isDirectory (e fuel hf) hc hd rfl⟩
      | false =>
        have hi : w1.vol.isInitialized = true := by rw [hvol]; exact hv.initialized
        exact ⟨.enter (freshIter info1.firstCluster) info1, w1, hvol, ⟨rfl, _, rfl, hdir hd⟩,
          pre fun fuel hf => scanDir_enter (e fuel hf) hi hc hd rfl⟩
    | false =>
      cases final with
      | true => exact ⟨.found info1, w1, hvol, trivial, pre fun fuel hf => scanDir_found (e fuel hf) hc hd rfl⟩
      | false => exact again (Or.inr ⟨hd, rfl⟩)

/-- The walk along a path returns, by induction on what is left of the path. -/
theorem walkPath_settles (hends : ScansEnd env v) (file : FileInfo) (n : Nat) : ∀ {path : List UInt8} {c : UInt32} {w : World},
    path.length < n → w.vol = v → Visits env v (.start c) → ∀ info : FileInfo, ∃ r w',
      Settles (fun fuel => walkPath env fuel path (freshIter c) info file w) (.ok (r, w')) := by
  induction n with
  | zero => intro path c w hn; omega
  | succ n ih =>
    intro path c w hn hw hc info
    obtain ⟨m, hm⟩ := hends.scanning hc (freshIter_fresh c)
    have hscan (final : Bool) := scanDir_ends hv (component path) final m hw hm info
    cases hb : behind path with
    | none =>
      obtain ⟨r, w1, -, hr, e⟩ := hscan true
      cases r with
      | enter => cases hr.1
      | ret res =>
        refine ⟨(res, file), w1, m + 3, fun fuel hf => ?_⟩
        obtain ⟨fuel, rfl⟩ := Nat.exists_eq_add_one_of_ne_zero (show fuel ≠ 0 by omega)
        simp only [walkPath_last fuel _ info file hb, bind_apply, e fuel (by omega), ok_bind]
        rfl
      | found info1 =>
        refine ⟨(.success, info1), w1, m + 3, fun fuel hf => ?_⟩
        obtain ⟨fuel, rfl⟩ := Nat.exists_eq_add_one_of_ne_zero (show fuel ≠ 0 by omega)
        simp only [walkPath_last fuel _ info file hb, bind_apply, e fuel (by omega), ok_bind]
        rfl
    | some rest =>
      have hrest : rest.length < n := by
        have := (behind_mem hb).1
        omega
      by_cases hname : component path = []
      · obtain ⟨r, w', hs⟩ := ih hrest hw hc info
        refine ⟨r, w', Settles.of_succ ?_⟩
        simp only [walkPath_empty _ _ info file hb hname]
        exact hs
      · obtain ⟨r, w1, hvol, hr, e⟩ := hscan false
        -- what follows the scan
        have hs1 : Settles (fun fuel => scanDir env fuel (component path) false (freshIter c) info w) (.ok (r, w1)) :=
          ⟨m + 2, fun fuel hf => e fuel (by omega)⟩
        have after : ∀ {q}, Settles (fun fuel => afterScan env fuel rest file r w1) q →
            Settles (fun fuel => walkPath env fuel path (freshIter c) info file w) q := by
          intro q hq
          refine Settles.of_succ ?_
          simp only [walkPath_through _ _ info file hb hname, bind_apply]
          exact hs1.bind (fun fuel x => x.bind fun r => afterScan env fuel rest file r.1 r.2) hq
        cases r with
        | ret res => exact ⟨_, w1, after (settles_const _)⟩
        | found info1 => exact ⟨_, w1, after (settles_const _)⟩
        | enter iter info1 =>
          obtain ⟨-, c', rfl, hc'⟩ := hr
          obtain ⟨r, w', hs⟩ := ih hrest hvol hc' info1
          exact ⟨r, w', after hs⟩

end

/-! ## fat32_open -/

theorem getFile_settles {env : Env} {w : World} (hv : w.vol.Readable) (hends : ScansEnd env w.vol) (path : List UInt8)
    (file : FileInfo) : ∃ r w', Settles (fun fuel => getFile env fuel (0x2F :: path) file w) (.ok (r, w')) := by
  obtain ⟨r, w', hs⟩ := walkPath_settles hv hends file _ (Nat.lt_succ_self path.length) rfl .root default
  refine ⟨r, w', ?_⟩
  have e := fatInitRootDirIterator_apply hv.initialized default w.vol.rootDirCluster
  simp only [getFile, bind_apply, get_apply, ok_bind, e, ne_eq, not_true_eq_false, if_false]
  exact hs

/-- On every image on which no directory scan goes on for ever, `fat32_open` of an absolute
    path returns, whatever SD reads fail. -/
theorem open_returns {env : Env} {w : World} (hv : w.vol.Readable) (hends : ScansEnd env w.vol) (path : List UInt8)
    (mode : UInt8) : ∃ id w', Settles (fun fuel => fat32Open env fuel (0x2F :: path) mode w) (.ok (id, w')) := by
  obtain ⟨r, w1, hs⟩ := getFile_settles hv hends path default
  refine ⟨(openResult mode (r, w1)).1, (openResult mode (r, w1)).2, ?_⟩
  simp only [fat32Open_eq]
  exact hs.map fun x => x.bind fun r => .ok (openResult mode r)

/-- On the sample card a scan comes to the end mark behind `/A`. -/
theorem sample_visits {f : Nat → Bool} {p : Pos} (h : Visits (failing f) sampleVolume p) : p = ⟨2, 0, 0⟩ ∨ p = ⟨2, 0, 1⟩ := by
  have h0 : Pos.next sampleCard sampleVolume ⟨2, 0, 0⟩ = some ⟨2, 0, 1⟩ := by decide +kernel
  have h1 : Pos.next sampleCard sampleVolume ⟨2, 0, 1⟩ = none := by decide +kernel
  have hd : ¬ IsDir (Pos.buf sampleCard sampleVolume ⟨2, 0, 0⟩) := by decide +kernel
  have hr : ¬ Reported (Pos.buf sampleCard sampleVolume ⟨2, 0, 1⟩) := by decide +kernel
  induction h with
  | root => exact Or.inl rfl
  | @next p q _ hn ih =>
    have hn' : p.next sampleCard sampleVolume = some q := hn
    rcases ih with rfl | rfl
    · rw [h0] at hn'; cases hn'; exact Or.inr rfl
    · rw [h1] at hn'; cases hn'
  | sub _ hrep hdir ih =>
    rcases ih with rfl | rfl
    · exact absurd hdir hd
    · exact absurd hrep hr

theorem sample_scansEnd (f : Nat → Bool) : ScansEnd (failing f) sampleVolume := by
  have h0 : Pos.next sampleCard sampleVolume ⟨2, 0, 0⟩ = some ⟨2, 0, 1⟩ := by decide +kernel
  have h1 : Pos.next sampleCard sampleVolume ⟨2, 0, 1⟩ = none := by decide +kernel
  have h0' : Pos.next (failing f) sampleVolume ⟨2, 0, 0⟩ = some ⟨2, 0, 1⟩ := h0
  have h1' : Pos.next (failing f) sampleVolume ⟨2, 0, 1⟩ = none := h1
  intro p hp
  refine ⟨2, ?_⟩
  rcases sample_visits hp with rfl | rfl
  · show ((Pos.next (failing f) sampleVolume ⟨2, 0, 0⟩).bind _) = none
    rw [h0']; exact h1'
  · show ((Pos.next (failing f) sampleVolume ⟨2, 0, 1⟩).bind _) = none
    rw [h1']; rfl

theorem sampleVolume_readable : sampleVolume.Readable := ⟨sampleVolume_wellFormed.sectors, by decide⟩

/-- With the third command failing. -/
theorem open_returns_sample : ∃ id w', Settles (fun fuel => fat32Open (failing (· == 2)) fuel [0x2F, 0x41] 0 (mountOn (· == 2)))
    (.ok (id, w')) := by
  have hvol : (mountOn (· == 2)).vol = sampleVolume := by decide +kernel
  exact open_returns (by rw [hvol]; exact sampleVolume_readable) (by rw [hvol]; exact sample_scansEnd _) [0x41] 0

/-! ## A chain that loops -/

/-- A scan over positions that it all skips never returns. -/
theorem readDirLoop_spins {env : Env} {v : VolumeInfo} (hv : v.Readable) (ha : ∀ k, env.fails k = false) {S : Pos → Prop}
    (hS : ∀ p, S p → p.buf env v 0 ≠ 0 ∧ ¬ Reported (p.buf env v) ∧ ∃ q, p.behind env v = some q ∧ S q) (fuel : Nat) :
    ∀ {iter : DirIter} {w : World} {p : Pos}, w.vol = v → S p → Ahead env v iter (some p) → ∀ (l : LfnLocals) (info : FileInfo),
      readDirLoop env fuel iter l info w = .error .spin := by
  induction fuel with
  | zero => intro iter w p _ _ _ l info; rfl
  | succ fuel ih =>
    intro iter w p hw hp hah l info
    subst hw
    rcases dirTurn_ahead hv hah l info with ⟨q, hq, e, iter', w', he, ha', hvol, ht⟩ | ⟨hnone | ⟨k, hk⟩, -⟩
    · cases hq
      obtain ⟨h0, hr, q, hb, hq⟩ := hS p hp
      obtain ⟨k, l', info', e'⟩ := entryTurn_skips he iter' l info h0 hr
      rw [hb] at ha'
      simp only [readDirLoop, bind_apply, ht, ok_bind, e']
      exact ih hvol hq (ha'.checksum k) l' info'
    · cases hnone
    · rw [ha] at hk; cases hk

/-- The root directory is one cluster of deleted entries that is its own successor. -/
def loopCard : Env := card ([
  (0, 446, 0x80), (0, 450, 0x0C), (0, 454, 1), (0, 458, 100), (0, 510, 0x55), (0, 511, 0xAA),
  (1, 0x0C, 2), (1, 0x0D, 1), (1, 0x0E, 1), (1, 0x10, 1), (1, 36, 1), (1, 44, 2),
  (2, 8, 2)] ++ (List.range 16).map fun k => (3, k * 32, 0xE5))

/-- Opening `/A` on it never returns. -/
theorem open_spins : ∃ w, fat32Init loopCard World.boot = .ok (true, w) ∧
    ∀ fuel, fat32Open loopCard fuel [0x2F, 0x41] 0 w = .error .spin := by
  have h0 : answer (fat32Init loopCard World.boot) = some true := by decide +kernel
  let w := after (fat32Init loopCard World.boot)
  have hvol : w.vol = sampleVolume := by decide +kernel
  have hi : w.vol.isInitialized = true := by rw [hvol]; rfl
  have hroot : w.vol.rootDirCluster = 2 := by rw [hvol]; rfl
  have hpos : ∀ k < 16, Pos.buf loopCard sampleVolume ⟨2, 0, k⟩ 0 ≠ 0 ∧ ¬ Reported (Pos.buf loopCard sampleVolume ⟨2, 0, k⟩) ∧
      Pos.behind loopCard sampleVolume ⟨2, 0, k⟩ = some ⟨2, 0, (k + 1) % 16⟩ := by decide +kernel
  -- the sixteen entries, over and over
  have hS : ∀ p : Pos, (p.cluster = 2 ∧ p.sector = 0 ∧ p.entry < 16) → p.buf loopCard sampleVolume 0 ≠ 0 ∧
      ¬ Reported (p.buf loopCard sampleVolume) ∧
      ∃ q : Pos, p.behind loopCard sampleVolume = some q ∧ (q.cluster = 2 ∧ q.sector = 0 ∧ q.entry < 16) := by
    rintro ⟨c, s, k⟩ ⟨rfl, rfl, hk⟩
    obtain ⟨h1, h2, h3⟩ := hpos k hk
    exact ⟨h1, h2, _, h3, rfl, rfl, Nat.mod_lt _ (by decide)⟩
  have hread : ∀ fuel info, fatReadNextDirEntry loopCard fuel (freshIter 2) info w = .error .spin := by
    intro fuel info
    have hspin := readDirLoop_spins sampleVolume_readable (fun _ => rfl) hS fuel (w := { w with frames := w.frames + 1 })
      (p := .start 2) hvol ⟨rfl, rfl, by decide⟩ (.fresh (freshIter_fresh 2)) (loopCard.stack w.frames) info
    simp only [fatReadNextDirEntry, bind_apply, get_apply, ok_bind, hi, Bool.not_true, Bool.false_eq_true, if_false,
      modify_apply, hspin]
  have hscan : ∀ fuel info, scanDir loopCard fuel [0x41] true (freshIter 2) info w = .error .spin := by
    intro fuel info
    cases fuel with
    | zero => rfl
    | succ fuel => simp only [scanDir, bind_apply, hread, error_bind]
  refine ⟨w, answer_some h0, fun fuel => ?_⟩
  have e := fatInitRootDirIterator_apply hi default 2
  have hget : getFile loopCard fuel [0x2F, 0x41] default w = .error .spin := by
    simp only [getFile, bind_apply, get_apply, ok_bind, hroot, e, ne_eq, not_true_eq_false, if_false]
    cases fuel with
    | zero => rfl
    | succ fuel =>
      have hcomp : component [0x41] = [0x41] := by decide
      have hbehind : behind [0x41] = none := by decide
      simp only [walkPath, hbehind, hcomp, bind_apply, hscan, error_bind]
  rw [fat32Open_eq, hget, error_bind]

end OpenGpos.Fat
