/-
  OpenGpos.Fat.Trail — where a call gets to on the card, without the call. A `Spot` is where an
  iterator stands and how many SD commands were given before, and `Spot.pass` passes over an entry;
  a `Search` is `get_file` on its way along a path, name by name; a `Reading` is a read on its way
  along a chain. Each is a machine over the card, and the SD commands that it makes on its way are
  all that the code gives (`fatReadNextDirEntry_trail`, `getFile_trail`, `readLoop_trail`),
  whatever is on the card and whichever reads fail.
-/
import OpenGpos.Fat.Bounds
import OpenGpos.Fat.LongName
import OpenGpos.Fat.Scan
import OpenGpos.Fat.Turns
import OpenGpos.Lib.Runs

namespace OpenGpos.Fat

open OpenGpos.Lib.Bytes OpenGpos.Lib.Fuel OpenGpos.Lib.Runs OpenGpos.Libc.Strings

/-! ## The turns of an iterator -/

/-- Where an iterator stands: at the start of a directory, or behind an entry. -/
inductive Place where
  | start (c : UInt32)
  | behind (p : Pos)

def DirIter.place (iter : DirIter) : Place :=
  if iter.sectorBufferValid then
    .behind ⟨iter.currentCluster, iter.currentSectorInCluster.toNat, iter.currentEntryInSector.toNat - 1⟩
  else .start iter.currentCluster

/-- The iterator is in order there. -/
inductive IsAt (env : Env) (v : VolumeInfo) : DirIter → Place → Prop
  | start {c : UInt32} {iter : DirIter} : Fresh c iter → IsAt env v iter (.start c)
  | behind {p : Pos} {iter : DirIter} : p.sector < v.sectorsPerCluster.toNat → p.entry < v.perSector →
      Inside env v p.cluster p.sector (p.entry + 1) iter → IsAt env v iter (.behind p)

structure Spot where
  place : Place
  /-- The SD commands so far; the next one has this number. -/
  calls : Nat

/-- The position behind `p` in its cluster. -/
def Pos.inCluster (v : VolumeInfo) (p : Pos) : Option Pos :=
  if p.entry + 1 < v.perSector then some { p with entry := p.entry + 1 }
  else if p.sector + 1 < v.sectorsPerCluster.toNat then some ⟨p.cluster, p.sector + 1, 0⟩
  else none

namespace Spot

/-- The position that a turn gets to, unless the chain ends there or its lookup fails, and the number
    of the next SD command by then. -/
def ahead (env : Env) (v : VolumeInfo) (s : Spot) : Option (Pos × Nat) :=
  match s.place with
  | .start c => some (.start c, s.calls)
  | .behind p =>
    match p.inCluster v with
    | some q => some (q, s.calls)
    | none =>
      if v.Valid p.cluster ∧ env.fails s.calls = false ∧ (fatResult (fatEntry env v p.cluster)).1 = .success then
        some (.start (fatResult (fatEntry env v p.cluster)).2, s.calls + 1)
      else none

/-- The same with the sector in the buffer: the first entry of a sector has it read, which may fail. -/
def looks (env : Env) (v : VolumeInfo) (s : Spot) : Option (Pos × Nat) :=
  match s.ahead env v with
  | some (q, n) => if q.entry ≠ 0 then some (q, n) else if env.fails n then none else some (q, n + 1)
  | none => none

/-- The SD commands of a turn. -/
inductive Makes (env : Env) (v : VolumeInfo) (s : Spot) : SdCall → Prop
  | lookup {p : Pos} : s.place = .behind p → v.Valid p.cluster → Makes env v s (fatRead v p.cluster)
  | sector {q : Pos} {n : Nat} : s.ahead env v = some (q, n) → q.sector < v.sectorsPerCluster.toNat →
      Makes env v s (.readBlock (fatClusterToLba v q.cluster + UInt32.ofNat q.sector))

/-- A turn that passes over its entry. -/
def pass (env : Env) (v : VolumeInfo) (s : Spot) : Option Spot :=
  match s.looks env v with
  | some (q, n) => if q.buf env v 0 ≠ 0 ∧ ¬Reported (q.buf env v) then some ⟨.behind q, n⟩ else none
  | none => none

/-- The same with the entry. -/
def Passes (env : Env) (v : VolumeInfo) (s : Spot) (e : Buf) (t : Spot) : Prop :=
  ∃ q n, s.looks env v = some (q, n) ∧ q.buf env v 0 ≠ 0 ∧ ¬Reported (q.buf env v) ∧ e = q.buf env v ∧
      t = ⟨.behind q, n⟩

theorem Passes.pass_eq {env : Env} {v : VolumeInfo} {s t : Spot} {e : Buf} (h : s.Passes env v e t) :
    s.pass env v = some t := by
  obtain ⟨q, n, hl, h0, hr, -, rfl⟩ := h
  unfold pass
  rw [hl]
  exact if_pos ⟨h0, hr⟩

theorem passes_always {env : Env} {v : VolumeInfo} {P : Spot → Prop} {s t : Spot} {es : List Buf}
    (h : Run (Spot.Passes env v) s es t) (hs : Always (Spot.pass env v) P s) : Always (Spot.pass env v) P t := by
  induction h with
  | nil => exact hs
  | cons hp _ ih => exact ih (hs.step hp.pass_eq)

end Spot

section
variable {env : Env} {v : VolumeInfo} {iter : DirIter}

theorem IsAt.place_eq {place : Place} (h : IsAt env v iter place) : iter.place = place := by
  unfold DirIter.place
  cases h with
  | start hf => rw [if_neg (by rw [hf.valid]; decide), hf.cluster]
  | behind _ _ hi => rw [if_pos hi.valid, hi.cluster, hi.sector, hi.entry, Nat.add_sub_cancel]

theorem IsAt.checksum {place : Place} (h : IsAt env v iter place) (k : UInt8) :
    IsAt env v { iter with lfnChecksum := k } place := by
  cases h with
  | start hf => exact .start ⟨hf.cluster, hf.sector, hf.valid⟩
  | behind hs he hi => exact .behind hs he ⟨hi.cluster, hi.sector, hi.entry, hi.valid, hi.buffer⟩

/-! ## One turn -/

/-- What a load comes to that gives the commands `cs`. -/
def Loads (env : Env) (s : Spot) (iter : DirIter) (w : World) : Prop :=
  ∃ res iter' cs, loadSector env iter w = .ok ((res, iter'), { w with calls := cs ++ w.calls }) ∧
    (∀ c ∈ cs, s.Makes env w.vol c) ∧ iter'.lfnChecksum = iter.lfnChecksum ∧
    match s.looks env w.vol with
    | some (q, n) => res = .success ∧ q.sector < w.vol.sectorsPerCluster.toNat ∧ q.entry = 0 ∧
        s.calls + cs.length = n ∧ Inside env w.vol q.cluster q.sector 0 iter'
    | none => res ≠ .success

/-- The read of a sector, behind the commands `cs`. -/
theorem Loads.of_readSector {s : Spot} {w : World} {q : Pos} {n : Nat} (cs : List SdCall) {iter0 : DirIter}
    (hl : loadSector env iter w = readSector env iter0 { w with calls := cs ++ w.calls })
    (ha : s.ahead env w.vol = some (q, n)) (hn : cs.length + w.calls.length = n) (hcs : ∀ c ∈ cs, s.Makes env w.vol c)
    (hw : w.calls.length = s.calls) (hq : q.sector < w.vol.sectorsPerCluster.toNat) (h0 : q.entry = 0)
    (hc : iter0.currentCluster = q.cluster) (hs : iter0.currentSectorInCluster.toNat = q.sector)
    (he : iter0.currentEntryInSector = 0) (hk : iter0.lfnChecksum = iter.lfnChecksum) : Loads env s iter w := by
  have hlen : ({ w with calls := cs ++ w.calls } : World).calls.length = n := by
    rw [← hn]
    exact List.length_append
  have hmakes : ∀ c ∈ SdCall.readBlock (fatClusterToLba w.vol q.cluster + UInt32.ofNat q.sector) :: cs,
      s.Makes env w.vol c := by
    intro c hmem
    rcases List.mem_cons.mp hmem with rfl | hmem
    · exact .sector ha hq
    · exact hcs c hmem
  have hlba : fatClusterToLba w.vol iter0.currentCluster + iter0.currentSectorInCluster =
      fatClusterToLba w.vol q.cluster + UInt32.ofNat q.sector := by
    rw [hc, ← hs, UInt32.ofNat_toNat]
  unfold Loads
  unfold Spot.looks
  rw [ha, hl]
  dsimp only
  rw [if_neg (not_not.mpr h0)]
  by_cases hf : env.fails n = true
  · have hf' : env.fails ({ w with calls := cs ++ w.calls } : World).calls.length = true := by rw [hlen]; exact hf
    have e := readSector_junk hf' iter0
    dsimp only at e
    rw [hlba] at e
    rw [if_pos hf]
    exact ⟨.readFail, _, _ :: cs, e, hmakes, hk, fun h => FatError.noConfusion h⟩
  · rw [if_neg hf]
    obtain ⟨iter', hin, hk', e⟩ := readSector_ok (w := { w with calls := cs ++ w.calls }) (by rw [hlen]; simpa using hf)
      hc hs he
    refine ⟨.success, iter', _, e, hmakes, hk'.trans hk, rfl, hq, h0, ?_, hin⟩
    rw [List.length_cons]
    omega

theorem loadSector_spot {w : World} (hv : w.vol.Readable) {s : Spot} (hw : w.calls.length = s.calls)
    (h : IsAt env w.vol iter s.place)
    (hload : iter.sectorBufferValid = false ∨ w.vol.bytesPerSector.toNat / 32 ≤ iter.currentEntryInSector.toNat) :
    Loads env s iter w := by
  have hspc := hv.spc_pos
  have hlt := w.vol.sectorsPerCluster.toNat_lt
  have hnil : ∀ c ∈ ([] : List SdCall), s.Makes env w.vol c := fun c hc => (List.not_mem_nil hc).elim
  obtain ⟨place, calls⟩ := s
  cases h with
  | @start c _ hf =>
    have h0 : (iter.currentSectorInCluster + 1).toNat = 0 := by rw [hf.sector]; rfl
    exact .of_readSector (q := .start c) [] (loadSector_within (by omega)) rfl ((Nat.zero_add _).trans hw) hnil hw hspc rfl
      hf.cluster h0 rfl rfl
  | @behind p _ hsec hent hi =>
    have hs : (iter.currentSectorInCluster + 1).toNat = p.sector + 1 := by
      rw [UInt32.toNat_add, hi.sector]
      show (p.sector + 1) % 2 ^ 32 = _
      omega
    have hlast : ¬p.entry + 1 < w.vol.perSector := by
      have hps : w.vol.perSector = max 1 (w.vol.bytesPerSector.toNat / 32) := rfl
      rcases hload with hb | hb
      · rw [hi.valid] at hb; cases hb
      · rw [hi.entry] at hb
        omega
    by_cases hnext : p.sector + 1 < w.vol.sectorsPerCluster.toNat
    · have ha : Spot.ahead env w.vol ⟨.behind p, calls⟩ = some (⟨p.cluster, p.sector + 1, 0⟩, calls) := by
        simp only [Spot.ahead, Pos.inCluster, if_neg hlast, if_pos hnext]
      exact .of_readSector [] (loadSector_within (by omega)) ha ((Nat.zero_add _).trans hw) hnil hw hnext rfl
        hi.cluster hs rfl rfl
    -- the end of the cluster
    have ha : Spot.ahead env w.vol ⟨.behind p, calls⟩ =
        if w.vol.Valid p.cluster ∧ env.fails calls = false ∧ (fatResult (fatEntry env w.vol p.cluster)).1 =
          .success then
          some (.start (fatResult (fatEntry env w.vol p.cluster)).2, calls + 1) else none := by
      simp only [Spot.ahead, Pos.inCluster, if_neg hlast, if_neg hnext]
    have hstuck : Spot.ahead env w.vol ⟨.behind p, calls⟩ = none → Spot.looks env w.vol ⟨.behind p, calls⟩ = none := by
      intro hnone
      rw [Spot.looks, hnone]
    have hls : loadSector env iter w = _ := loadSector_beyond (by omega)
    rw [hi.cluster] at hls
    by_cases hval : w.vol.Valid p.cluster
    case neg =>
      rw [getNextCluster_invalid hv.initialized hval] at hls
      refine ⟨.invalidCluster, moved iter, [], hls, hnil, rfl, ?_⟩
      rw [hstuck (by rw [ha, if_neg fun h => hval h.1])]
      exact fun h => FatError.noConfusion h
    have hone : ∀ c ∈ [fatRead w.vol p.cluster], Spot.Makes env w.vol ⟨.behind p, calls⟩ c := fun c hc =>
      List.mem_singleton.mp hc ▸ .lookup rfl hval
    rw [getNextCluster_valid hv.initialized hv.toSectors.sector hval, show w.calls.length = calls from hw] at hls
    by_cases hf : env.fails calls = true
    · rw [if_pos hf] at hls
      refine ⟨.readFail, moved iter, [fatRead w.vol p.cluster], hls, hone, rfl, ?_⟩
      rw [hstuck (by rw [ha, if_neg fun h => by rw [hf] at h; cases h.2.1])]
      exact fun h => FatError.noConfusion h
    rw [if_neg hf] at hls
    by_cases hr : (fatResult (fatEntry env w.vol p.cluster)).1 = .success
    case neg =>
      simp only [ok_bind, ne_eq, hr, not_false_eq_true, if_true, pure_apply] at hls
      refine ⟨_, moved iter, [fatRead w.vol p.cluster], hls, hone, rfl, ?_⟩
      rw [hstuck (by rw [ha, if_neg fun h => hr h.2.2])]
      exact hr
    simp only [ok_bind, ne_eq, hr, not_true_eq_false, if_false] at hls
    rw [if_pos ⟨hval, by simpa using hf, hr⟩] at ha
    exact .of_readSector [fatRead w.vol p.cluster] hls ha (hw ▸ Nat.add_comm 1 _) hone hw hspc rfl rfl rfl rfl rfl

/-- What a turn comes to: it looks at its entry, or ends the call. -/
theorem dirTurn_spot {w : World} (hv : w.vol.Readable) {s : Spot} (hw : w.calls.length = s.calls)
    (h : IsAt env w.vol iter s.place) (l : LfnLocals) (info : FileInfo) :
    ∃ t cs, dirTurn env iter l info w = .ok (t, { w with calls := cs ++ w.calls }) ∧ (∀ c ∈ cs, s.Makes env w.vol c) ∧
      match s.looks env w.vol with
      | some (q, n) => s.calls + cs.length = n ∧ ∃ e iter', Agree e (q.buf env w.vol) ∧
          IsAt env w.vol iter' (.behind q) ∧ iter'.lfnChecksum = iter.lfnChecksum ∧ t = entryTurn e iter' l info
      | none => ∃ res iter', res ≠ .success ∧ t = .done res iter' info := by
  have hps : w.vol.perSector = max 1 (w.vol.bytesPerSector.toNat / 32) := rfl
  have hent := hv.entries
  by_cases hload : iter.sectorBufferValid = false ∨ w.vol.bytesPerSector.toNat / 32 ≤ iter.currentEntryInSector.toNat
  · obtain ⟨res, iter1, cs, hl, hcs, hk, hlooks⟩ := loadSector_spot hv hw h hload
    rw [← perSector_le] at hload
    cases hs : s.looks env w.vol with
    | none =>
      rw [hs] at hlooks
      refine ⟨.done res iter1 info, cs, ?_, hcs, res, iter1, hlooks, rfl⟩
      simp only [dirTurn, bind_apply, get_apply, ok_bind, if_pos hload, hl, if_pos hlooks, pure_apply]
    | some r =>
      rw [hs] at hlooks
      obtain ⟨rfl, hsec, h0, hn, hi⟩ := hlooks
      have hj : r.1.entry < w.vol.perSector := by omega
      obtain ⟨e, iter', he, hi', hk', hnext⟩ :=
        nextEntry_inside (w := { w with calls := cs ++ w.calls }) l info hi (by decide)
      rw [← h0] at he hi'
      refine ⟨entryTurn e iter' l info, cs, ?_, hcs, hn, e, iter', he, .behind hsec hj hi', hk'.trans hk, rfl⟩
      simp only [dirTurn, bind_apply, get_apply, ok_bind, if_pos hload, hl, ne_eq, not_true_eq_false, if_false, hnext]
  · -- the sector is in the buffer
    obtain ⟨place, calls⟩ := s
    cases h with
    | start hf => exact absurd (Or.inl hf.valid) hload
    | @behind p _ hsec _ hi =>
      rw [not_or, hi.entry] at hload
      have hin : p.entry + 1 < w.vol.perSector := by omega
      have hlooks : Spot.looks env w.vol ⟨.behind p, calls⟩ = some (⟨p.cluster, p.sector, p.entry + 1⟩, calls) := by
        simp only [Spot.looks, Spot.ahead, Pos.inCluster, if_pos hin]
        rw [if_pos (Nat.succ_ne_zero _)]
      obtain ⟨e, iter', he, hi', hk', hnext⟩ := nextEntry_inside l info hi (by omega)
      have hstay : ¬(iter.sectorBufferValid = false ∨
          w.vol.bytesPerSector.toUInt32 / 32 ≤ iter.currentEntryInSector.toUInt32) := by
        rw [perSector_le, hi.entry]
        exact not_or.mpr hload
      refine ⟨entryTurn e iter' l info, [], ?_, fun c hc => (List.not_mem_nil hc).elim, ?_⟩
      · simp only [dirTurn, bind_apply, get_apply, ok_bind, if_neg hstay, hnext, List.nil_append]
      · rw [hlooks]
        exact ⟨rfl, e, iter', he, .behind (p := ⟨p.cluster, p.sector, p.entry + 1⟩) hsec hin hi', hk', rfl⟩

end

/-! ## A call of the iterator -/

/-- On the volume, with all SD commands behind `base` in `S`. -/
structure Asked (v : VolumeInfo) (S : SdCall → Prop) (base : List SdCall) (w : World) : Prop where
  vol : w.vol = v
  calls : ∃ cs, w.calls = cs ++ base ∧ ∀ c ∈ cs, S c

theorem Asked.more {v : VolumeInfo} {S : SdCall → Prop} {base : List SdCall} {w w' : World} (h : Asked v S base w)
    (hvol : w'.vol = w.vol) {cs : List SdCall} (hcs : w'.calls = cs ++ w.calls) (hS : ∀ c ∈ cs, S c) :
    Asked v S base w' := by
  obtain ⟨cs0, hcs0, hall⟩ := h.calls
  refine ⟨hvol.trans h.vol, cs ++ cs0, by rw [hcs, hcs0, List.append_assoc], fun c hc => ?_⟩
  rcases List.mem_append.mp hc with hc | hc
  · exact hS c hc
  · exact hall c hc

section
variable {env : Env} {v : VolumeInfo} {S : SdCall → Prop} {base : List SdCall} (hv : v.Readable)
include hv

/-- The call passes over the entries `es` and reports the one it looks at then, if it succeeds. -/
theorem readDirLoop_trail (fuel : Nat) : ∀ {s : Spot} {d : Decoding} {iter iter' : DirIter} {w w' : World}
    {res : FatError} {info' : FileInfo}, Asked v S base w → w.calls.length = s.calls → IsAt env v iter s.place →
    iter.lfnChecksum = d.lfnChecksum → (∀ es t, Run (Spot.Passes env v) s es t → ∀ c, t.Makes env v c → S c) →
    readDirLoop env fuel iter d.locals d.info w = .ok ((res, iter', info'), w') →
    Asked v S base w' ∧ w'.frames = w.frames ∧ (res = .success → ∃ es t q n, Run (Spot.Passes env v) s es t ∧
      t.looks env v = some (q, n) ∧ Reported (q.buf env v) ∧ w'.calls.length = n ∧ IsAt env v iter' (.behind q) ∧
      iter'.lfnChecksum = 0 ∧ info' = ((es.foldl Decoding.pass d).pass (q.buf env v)).info) := by
  induction fuel with
  | zero => intro s d iter iter' w w' res info' _ _ _ _ _ h; cases h
  | succ fuel ih =>
    intro s d iter iter' w w' res info' hw hcalls ha hk hS h
    have hvol := hw.vol
    subst hvol
    obtain ⟨t, cs, ht, hcs, hlooks⟩ := dirTurn_spot hv hcalls ha d.locals d.info
    have hw1 : Asked w.vol S base { w with calls := cs ++ w.calls } :=
      hw.more rfl rfl fun c hc => hS [] s (.nil s) c (hcs c hc)
    cases hs : s.looks env w.vol with
    | none =>
      rw [hs] at hlooks
      obtain ⟨res1, iter1, hr, rfl⟩ := hlooks
      rw [readDirLoop_done ht] at h
      cases h
      exact ⟨hw1, rfl, fun hsucc => absurd hsucc hr⟩
    | some r =>
      obtain ⟨q, n⟩ := r
      rw [hs] at hlooks
      obtain ⟨hn, e, iter1, he, hi, hk1, rfl⟩ := hlooks
      have hlen : (cs ++ w.calls).length = n := by
        rw [List.length_append, hcalls, ← hn]
        exact Nat.add_comm _ _
      have hiter : iter1 = { iter1 with lfnChecksum := d.lfnChecksum } := by rw [← hk, ← hk1]
      by_cases h0 : q.buf env w.vol 0 = 0
      · rw [entryTurn_ends he iter1 d.locals d.info h0] at ht
        rw [readDirLoop_done ht] at h
        cases h
        exact ⟨hw1, rfl, fun hsucc => by cases hsucc⟩
      by_cases hr : Reported (q.buf env w.vol)
      · rw [hiter, entryTurn_last (he.reported.mpr hr)] at ht
        rw [readDirLoop_done ht] at h
        cases h
        refine ⟨hw1, rfl, fun _ => ⟨[], s, q, n, .nil s, hs, hr, hlen, hi.checksum _, ?_, ?_⟩⟩
        · rw [Decoding.pass_short ⟨(he.reported.mpr hr).2.1, (he.reported.mpr hr).2.2.1⟩]
        · rw [he.pass]
          rfl
      · have hpass : s.Passes env w.vol (q.buf env w.vol) ⟨.behind q, n⟩ := ⟨q, n, hs, h0, hr, rfl, rfl⟩
        rw [hiter, entryTurn_pass (by rw [he 0 (by omega)]; exact h0) (fun hr' => hr (he.reported.mp hr')),
          he.pass] at ht
        rw [readDirLoop_again ht] at h
        obtain ⟨hw', hframes, hsucc⟩ :=
          ih (s := ⟨.behind q, n⟩) (d := d.pass (q.buf env w.vol)) hw1 hlen (hi.checksum _) rfl
          (fun es t hrun => hS _ t (.cons hpass hrun)) h
        refine ⟨hw', hframes, fun hsuc => ?_⟩
        obtain ⟨es, t, q', n', hrun, hrest⟩ := hsucc hsuc
        exact ⟨_ :: es, t, q', n', .cons hpass hrun, hrest⟩

theorem fatReadNextDirEntry_trail {fuel : Nat} {s : Spot} {iter iter' : DirIter} {w w' : World} {res : FatError}
    {info info' : FileInfo} (hw : Asked v S base w) (hcalls : w.calls.length = s.calls) (ha : IsAt env v iter s.place)
    (hS : ∀ es t, Run (Spot.Passes env v) s es t → ∀ c, t.Makes env v c → S c)
    (h : fatReadNextDirEntry env fuel iter info w = .ok ((res, iter', info'), w')) :
    Asked v S base w' ∧ w'.frames = w.frames + 1 ∧ (res = .success → ∃ es t q n, Run (Spot.Passes env v) s es t ∧
      t.looks env v = some (q, n) ∧ Reported (q.buf env v) ∧ w'.calls.length = n ∧ IsAt env v iter' (.behind q) ∧
      iter'.lfnChecksum = 0 ∧
      info' = ((es.foldl Decoding.pass ⟨iter.lfnChecksum, env.stack w.frames, info⟩).pass (q.buf env v)).info) := by
  have hi : w.vol.isInitialized = true := by rw [hw.vol]; exact hv.initialized
  simp only [fatReadNextDirEntry, bind_apply, get_apply, ok_bind, hi, Bool.not_true, Bool.false_eq_true, if_false,
    modify_apply] at h
  have hw1 : Asked v S base { w with frames := w.frames + 1 } := ⟨hw.vol, hw.calls⟩
  exact readDirLoop_trail hv fuel (d := ⟨iter.lfnChecksum, env.stack w.frames, info⟩) hw1 hcalls ha rfl hS h

end

/-! ## A path -/

/-- `get_file` before a turn of its iterator. -/
structure Search where
  /-- From the name that is looked for on. -/
  path : List UInt8
  spot : Spot
  /-- The calls of the iterator before this one; what this one finds in its locals depends on it. -/
  frames : Nat
  decoding : Decoding

namespace Search

/-- Into the next call of the iterator. -/
def again (env : Env) (s : Search) (path : List UInt8) (spot : Spot) (info : FileInfo) : Search :=
  ⟨path, spot, s.frames + 1, ⟨0, env.stack (s.frames + 1), info⟩⟩

def next (env : Env) (v : VolumeInfo) (s : Search) : Option Search :=
  match s.spot.looks env v with
  | none => none
  | some (q, n) =>
    let e := q.buf env v
    let d := s.decoding.pass e
    if e 0 = 0 then none
    else if ¬Reported e then some { s with spot := ⟨.behind q, n⟩, decoding := d }
    else if strcmp d.info.filename (component s.path) 0 ≠ 0 then some (s.again env s.path ⟨.behind q, n⟩ d.info)
    else
      match behind s.path with
      | none => none
      | some rest =>
        if IsDir e then some (s.again env (rest.dropWhile (· == 0x2F)) ⟨.start (entryCluster e), n⟩ d.info)
        else some (s.again env s.path ⟨.behind q, n⟩ d.info)

/-- A search from the root directory. -/
def start (env : Env) (path : List UInt8) (w : World) : Search :=
  ⟨path.dropWhile (· == 0x2F), ⟨.start w.vol.rootDirCluster, w.calls.length⟩, w.frames,
    ⟨0, env.stack w.frames, default⟩⟩

/-- The code is where the search is. -/
structure Meets (env : Env) (v : VolumeInfo) (s : Search) (iter : DirIter) (info : FileInfo) (w : World) : Prop where
  place : IsAt env v iter s.spot.place
  calls : w.calls.length = s.spot.calls
  frames : w.frames = s.frames
  checksum : iter.lfnChecksum = 0
  decoding : s.decoding = ⟨0, env.stack w.frames, info⟩

/-- The search at an entry that is reported. -/
theorem next_reported {env : Env} {v : VolumeInfo} {s : Search} {q : Pos} {n : Nat} {info : FileInfo}
    (hl : s.spot.looks env v = some (q, n)) (hrep : Reported (q.buf env v))
    (hinfo : info = (s.decoding.pass (q.buf env v)).info) : s.next env v =
      if strcmp info.filename (component s.path) 0 ≠ 0 then some (s.again env s.path ⟨.behind q, n⟩ info)
      else
        match behind s.path with
        | none => none
        | some rest =>
          if IsDir (q.buf env v) then
            some (s.again env (rest.dropWhile (· == 0x2F)) ⟨.start (entryCluster (q.buf env v)), n⟩ info)
          else some (s.again env s.path ⟨.behind q, n⟩ info) := by
  unfold next
  rw [hl]
  dsimp only
  rw [if_neg hrep.1, if_neg (not_not.mpr hrep), ← hinfo]

/-- The code behind a call of the iterator, in its next one. -/
theorem meets_again {env : Env} {v : VolumeInfo} {s : Search} {iter : DirIter} {info : FileInfo} {w : World} {n : Nat}
    {place : Place} (path : List UInt8) (hp : IsAt env v iter place) (hn : w.calls.length = n)
    (hframes : w.frames = s.frames + 1) (hk : iter.lfnChecksum = 0) :
    (s.again env path ⟨place, n⟩ info).Meets env v iter info w :=
  ⟨hp, hn, hframes, hk, by rw [hframes]; rfl⟩

end Search

theorem component_slash {path rest : List UInt8} (hb : behind path = some rest) (hn : component path = []) :
    path.dropWhile (· == 0x2F) = rest.dropWhile (· == 0x2F) := by
  cases path with
  | nil => cases hb
  | cons c p =>
    by_cases hc : inName c = true
    · simp [component, List.takeWhile_cons_of_pos hc] at hn
    · have hd : (c :: p).dropWhile inName = c :: p := List.dropWhile_cons_of_neg hc
      unfold behind at hb
      rw [hd] at hb
      split at hb
      · rename_i heq
        cases heq
        cases hb
        rfl
      · cases hb

theorem component_name {path : List UInt8} (h : behind path = none ∨ component path ≠ []) :
    path.dropWhile (· == 0x2F) = path := by
  cases path with
  | nil => rfl
  | cons c p =>
    refine List.dropWhile_cons_of_neg fun hc => ?_
    have hslash : c = 0x2F := eq_of_beq hc
    subst hslash
    rcases h with h | h
    · exact absurd h (show some p ≠ none from fun h => nomatch h)
    · exact h rfl

section
variable {env : Env} {v : VolumeInfo} {S : SdCall → Prop} {base : List SdCall}

/-- All the way of the search the SD commands are in `S`. -/
abbrev Search.Stays (env : Env) (v : VolumeInfo) (S : SdCall → Prop) (s : Search) : Prop :=
  Always (Search.next env v) (fun t => ∀ c, t.spot.Makes env v c → S c) s

/-- A call of the iterator is part of the search. -/
theorem Search.Stays.passes {s : Spot} {es : List Buf} {t : Spot} (h : Run (Spot.Passes env v) s es t) :
    ∀ {path : List UInt8} {frames : Nat} {d : Decoding}, Search.Stays env v S ⟨path, s, frames, d⟩ →
      Search.Stays env v S ⟨path, t, frames, es.foldl Decoding.pass d⟩ := by
  induction h with
  | nil => exact fun h => h
  | cons hp _ ih =>
    intro path frames d hs
    obtain ⟨q, n, hl, h0, hr, rfl, rfl⟩ := hp
    refine ih (hs.step ?_)
    unfold Search.next
    rw [hl]
    dsimp only
    rw [if_neg h0, if_pos hr]

/-- Where the code enters a directory, the search goes on there. -/
def Search.Follows (env : Env) (v : VolumeInfo) (S : SdCall → Prop) (path : List UInt8) (r : Scan) (w : World) : Prop :=
  ∀ iter info, r = .enter iter info → ∃ (rest : List UInt8) (t : Search), behind path = some rest ∧
    t.path = rest.dropWhile (· == 0x2F) ∧ t.Meets env v iter info w ∧ t.Stays env v S

variable (hv : v.Readable)
include hv

/-- The search of a directory is on the way until it enters the next one. -/
theorem scanDir_trail (fuel : Nat) : ∀ {s : Search} {iter : DirIter} {info : FileInfo} {w w' : World} {r : Scan},
    Asked v S base w → s.Meets env v iter info w → s.Stays env v S →
    scanDir env fuel (component s.path) (behind s.path).isNone iter info w = .ok (r, w') →
    Asked v S base w' ∧ Search.Follows env v S s.path r w' := by
  induction fuel with
  | zero => intro s iter info w w' r _ _ _ h; cases h
  | succ fuel ih =>
    intro s iter info w w' r hw hm hs h
    cases hcall : fatReadNextDirEntry env fuel iter info w with
    | error e =>
      simp only [scanDir, bind_apply, hcall] at h
      cases h
    | ok a =>
      obtain ⟨⟨res, iter1, info1⟩, w1⟩ := a
      obtain ⟨path, spot, frames, d⟩ := s
      obtain rfl := hm.frames
      obtain rfl := hm.decoding
      obtain ⟨hw1, hframes, hsucc⟩ := fatReadNextDirEntry_trail hv hw hm.calls hm.place
        (fun es t hrun => (Search.Stays.passes hrun hs).here) hcall
      by_cases hres : res = .success
      case neg =>
        rw [scanDir_refused hcall hres] at h
        cases h
        exact ⟨hw1, fun iter' info' hr => by cases hr⟩
      obtain ⟨es, t, q, n, hrun, hl, hrep, hn, hi, hk, hinfo⟩ := hsucc hres
      subst hres
      rw [hm.checksum] at hinfo
      have hst := Search.Stays.passes hrun hs
      have hdec := sfnEntry_decodes (fun i _ => rfl : Agree (q.buf env v) (q.buf env v))
      -- the step of the search at the entry that is reported
      have hnext : ∀ u, Search.next env v ⟨path, t, w.frames, es.foldl Decoding.pass ⟨0, env.stack w.frames, info⟩⟩ =
          some u → u.Stays env v S := fun u hu => hst.step hu
      rw [Search.next_reported hl hrep hinfo] at hnext
      rw [Decoding.pass_short ⟨hrep.2.1, hrep.2.2.1⟩] at hinfo
      have hother : ∀ (u : Search), u = Search.again env
        ⟨path, t, w.frames, es.foldl Decoding.pass ⟨0, env.stack w.frames, info⟩⟩
          path ⟨.behind q, n⟩ info1 → u.Stays env v S →
          (strcmp info1.filename (component path) 0 ≠ 0 ∨ info1.isDirectory = false ∧ (behind path).isNone = false) →
          Asked v S base w' ∧ Search.Follows env v S path r w' := by
        rintro u rfl hu hne
        rw [scanDir_other hcall hne] at h
        exact ih hw1 (Search.meets_again path hi hn hframes hk) hu h
      by_cases hc : strcmp info1.filename (component path) 0 = 0
      case neg => exact hother _ rfl (hnext _ (if_pos hc)) (Or.inl hc)
      rw [if_neg (not_not.mpr hc)] at hnext
      cases hb : behind path with
      | none =>
        have hfinal : (behind path).isNone = true := by rw [hb]; rfl
        cases hd : info1.isDirectory with
        | true =>
          rw [scanDir_isDirectory hcall hc hd hfinal] at h
          cases h
          exact ⟨hw1, fun iter' info' hr => by cases hr⟩
        | false =>
          rw [scanDir_found hcall hc hd hfinal] at h
          cases h
          exact ⟨hw1, fun iter' info' hr => by cases hr⟩
      | some rest =>
        have hfinal : (behind path).isNone = false := by rw [hb]; rfl
        rw [hb] at hnext
        dsimp only at hnext
        have hdir : info1.isDirectory = true ↔ IsDir (q.buf env v) := by
          rw [hinfo]
          exact (hdec _ _ _).isDirectory
        cases hd : info1.isDirectory with
        | true =>
          have hi1 : w1.vol.isInitialized = true := by rw [hw1.vol]; exact hv.initialized
          rw [scanDir_enter hcall hi1 hc hd hfinal] at h
          cases h
          refine ⟨hw1, fun iter' info' hr => ?_⟩
          cases hr
          have hcl : info1.firstCluster = entryCluster (q.buf env v) := by
            rw [hinfo]
            exact (hdec _ _ _).firstCluster
          have hstart : IsAt env v (freshIter info1.firstCluster) (.start (entryCluster (q.buf env v))) := by
            rw [hcl]
            exact .start (freshIter_fresh _)
          exact ⟨rest, _, hb, rfl, Search.meets_again _ hstart hn hframes rfl, hnext _ (if_pos (hdir.mp hd))⟩
        | false =>
          have hnd : ¬IsDir (q.buf env v) := fun hn => by rw [hdir.mpr hn] at hd; cases hd
          rw [hb] at hother
          exact hother _ rfl (hnext _ (if_neg hnd)) (Or.inr ⟨hd, rfl⟩)

theorem walkPath_trail (file : FileInfo) (fuel : Nat) : ∀ {path : List UInt8} {s : Search} {iter : DirIter}
    {info : FileInfo} {w w' : World} {r : FatError × FileInfo}, Asked v S base w → s.path = path.dropWhile (· == 0x2F) →
    s.Meets env v iter info w → s.Stays env v S → walkPath env fuel path iter info file w = .ok (r, w') →
    Asked v S base w' := by
  induction fuel with
  | zero => intro path s iter info w w' r _ _ _ _ h; cases h
  | succ fuel ih =>
    intro path s iter info w w' r hw hp hm hs h
    -- what follows the search of a directory
    have after : ∀ {rest : List UInt8} {final : Bool}, path.dropWhile (· == 0x2F) = path →
        (behind path).isNone = final → (∀ rest', behind path = some rest' → rest' = rest) →
        (scanDir env fuel (component path) final iter info >>= afterScan env fuel rest file) w = .ok (r, w') →
        Asked v S base w' := by
      rintro rest final hpath rfl hrest h
      rw [hpath] at hp
      rw [bind_apply] at h
      cases hscan : scanDir env fuel (component path) (behind path).isNone iter info w with
      | error e => rw [hscan] at h; cases h
      | ok a =>
        obtain ⟨scan, w1⟩ := a
        rw [hscan, ok_bind] at h
        rw [← hp] at hscan
        obtain ⟨hw1, henter⟩ := scanDir_trail hv fuel hw hm hs hscan
        cases scan with
        | ret res => cases h; exact hw1
        | found info1 => cases h; exact hw1
        | enter iter1 info1 =>
          obtain ⟨rest', t, hb, htp, hmt, hst⟩ := henter iter1 info1 rfl
          rw [hp] at hb
          rw [hrest _ hb] at htp
          exact ih hw1 htp hmt hst h
    cases hb : behind path with
    | none =>
      rw [walkPath_last fuel iter info file hb] at h
      exact after (component_name (Or.inl hb)) (by rw [hb]; rfl) (fun rest' h => by rw [hb] at h; cases h) h
    | some rest =>
      by_cases hn : component path = []
      · rw [walkPath_empty fuel iter info file hb hn] at h
        exact ih hw (hp.trans (component_slash hb hn)) hm hs h
      · rw [walkPath_through fuel iter info file hb hn] at h
        exact after (component_name (Or.inr hn)) (by rw [hb]; rfl) (fun rest' h => by rw [hb] at h; cases h; rfl) h

theorem getFile_trail {fuel : Nat} {path : List UInt8} {file : FileInfo} {w w' : World} {r : FatError × FileInfo}
    (hw : Asked v S base w) (hs : (Search.start env path.tail w).Stays env v S)
    (h : getFile env fuel path file w = .ok (r, w')) : Asked v S base w' := by
  have hi : w.vol.isInitialized = true := by rw [hw.vol]; exact hv.initialized
  have e := fatInitRootDirIterator_apply hi default w.vol.rootDirCluster
  simp only [getFile, bind_apply, get_apply, ok_bind, e, ne_eq, not_true_eq_false, if_false] at h
  cases path with
  | nil => cases h
  | cons c path =>
    exact walkPath_trail hv file fuel hw rfl ⟨.start (freshIter_fresh _), rfl, rfl, rfl, rfl⟩ hs h

end

/-! ## A read -/

/-- `fat_read_file` before a turn of its loop, with `left` bytes to go. -/
structure Reading where
  h : FileHandle
  left : UInt32
  calls : Nat

namespace Reading

def next (env : Env) (v : VolumeInfo) (s : Reading) : Option Reading :=
  let n := s.h.chunk s.left
  if s.left = 0 ∨ env.fails s.calls = true then none
  else if ¬v.bytesPerCluster ≤ s.h.currentOffset + n then some ⟨s.h.advance n, s.left - n, s.calls + 1⟩
  else if v.Valid s.h.currentCluster ∧ env.fails (s.calls + 1) = false ∧
      (fatResult (fatEntry env v s.h.currentCluster)).1 = .success then
    some ⟨{ s.h.advance n with
      currentCluster := (fatResult (fatEntry env v s.h.currentCluster)).2
      currentOffset := 0 }, s.left - n, s.calls + 2⟩
  else none

/-- The SD commands of a turn. -/
inductive Makes (v : VolumeInfo) (s : Reading) : SdCall → Prop
  | data : s.left ≠ 0 → Makes v s (s.h.dataRead v s.left)
  | lookup : s.left ≠ 0 → v.Valid s.h.currentCluster → Makes v s (fatRead v s.h.currentCluster)

end Reading

section
variable {env : Env} {v : VolumeInfo} {S : SdCall → Prop} {base : List SdCall}

theorem Onward.next_eq {h h' : FileHandle} {left : UInt32} {k k' : Nat} (ho : Onward env v (h.chunk left) h k h' k')
    (h0 : left ≠ 0) : Reading.next env v ⟨h, left, k⟩ = some ⟨h', left - h.chunk left, k'⟩ := by
  unfold Reading.next
  cases ho with
  | within hf hlt =>
    dsimp only
    rw [if_neg (not_or.mpr ⟨h0, Bool.eq_false_iff.mp hf⟩), if_pos hlt]
  | next hf hf' hge hl =>
    dsimp only
    rw [if_neg (not_or.mpr ⟨h0, Bool.eq_false_iff.mp hf⟩), if_neg (not_not.mpr hge), if_pos ⟨hl.1, hf', by rw [hl.2]⟩,
      hl.2]

theorem chunk_le (h : FileHandle) (left : UInt32) : (h.chunk left).toNat ≤ left.toNat := by
  have hroom := room_toNat h
  by_cases hl : left.toNat < 2 ^ 31
  · rw [chunk_toNat h hl]
    exact Nat.min_le_left _ _
  · -- a negative number to `min`
    unfold FileHandle.chunk
    rw [min_negative (Nat.le_of_not_lt hl) (by omega)]

theorem readLoop_trail (hi : v.isInitialized = true) (hs : v.bytesPerSector = 512) {i : Slot} {actual : UInt32}
    (fuel : Nat) :
    ∀ {w w' : World} {total : UInt32} {buf : Buf} {r : FatError × Buf}, Asked v S base w → total.toNat ≤ actual.toNat →
    Always (Reading.next env v) (fun t => ∀ c, t.Makes v c → S c) ⟨w.handles i, actual - total, w.calls.length⟩ →
    readLoop env i actual fuel total buf w = .ok (r, w') → Asked v S base w' := by
  induction fuel with
  | zero => intro w w' total buf r _ _ _ h; cases h
  | succ fuel ih =>
    intro w w' total buf r hw hle hS h
    by_cases hlt : total < actual
    case neg =>
      simp only [readLoop, if_neg hlt, pure_apply] at h
      cases h
      exact hw
    have hvol := hw.vol
    subst hvol
    have hlt' := UInt32.lt_iff_toNat_lt.mp hlt
    have hleft : (actual - total).toNat = actual.toNat - total.toNat :=
      UInt32.toNat_sub_of_le _ _ (UInt32.le_iff_toNat_le.mpr hle)
    have h0 : actual - total ≠ 0 := by
      intro h0
      rw [h0] at hleft
      have hz : (0 : UInt32).toNat = 0 := rfl
      omega
    obtain ⟨buf1, w1, cs, hvol1, hcalls, hcs, -, hturn⟩ := readLoop_cases env i hi hs hlt buf fuel
    have hmade := hS.here
    have hw1 : Asked w.vol S base w1 := by
      have hmore : w1.calls = (cs ++ [(w.handles i).dataRead w.vol (actual - total)]) ++ w.calls := by rw [hcalls]; simp
      refine hw.more hvol1 hmore fun c hc => ?_
      rcases List.mem_append.mp hc with hc | hc
      · obtain ⟨hval, rfl⟩ := hcs c hc
        exact hmade _ (.lookup h0 hval)
      · rw [List.mem_singleton.mp hc]
        exact hmade _ (.data h0)
    rcases hturn with ⟨res, e⟩ | ⟨e, ho⟩
    · rw [e] at h
      cases h
      exact hw1
    · have hnext := hS.step (ho.next_eq h0)
      have hc := chunk_le (w.handles i) (actual - total)
      have hactual := actual.toNat_lt
      have htot : (total + (w.handles i).chunk (actual - total)).toNat =
          total.toNat + ((w.handles i).chunk (actual - total)).toNat := by
        rw [UInt32.toNat_add]
        omega
      have hsub : actual - (total + (w.handles i).chunk (actual - total)) =
          actual - total - (w.handles i).chunk (actual - total) := by
        rw [eq_comm, UInt32.sub_eq_iff_eq_add, UInt32.sub_eq_iff_eq_add, UInt32.add_assoc,
          UInt32.add_comm ((w.handles i).chunk _), UInt32.sub_add_cancel]
      rw [e] at h
      exact ih hw1 (by omega) (by rw [hsub]; exact hnext) h

end

end OpenGpos.Fat
