/-
  OpenGpos.Fat.Reach — where the directory code reads. `DirReach` are the clusters that FAT
  links and directory entries lead to from the root directory; every SD read of a path
  resolution is a sector of one of them or the lookup of a valid cluster (`DirCall`), and
  the file it finds is an entry of one (`getFile_reach`).
-/
import OpenGpos.Fat.Cursor
import OpenGpos.Fat.Walk

namespace OpenGpos.Fat

open OpenGpos.Lib.Hoare OpenGpos.Lib.Bytes

inductive DirReach (env : Env) (v : VolumeInfo) : UInt32 → Prop
  | root : DirReach env v v.rootDirCluster
  | next {c d : UInt32} : DirReach env v c → v.Valid c → fatResult (fatEntry env v c) = (.success, d) → DirReach env v d
  | sub {c : UInt32} {s k : Nat} : DirReach env v c → s < v.sectorsPerCluster.toNat → k < 16 →
      Reported (dirEntry env v c s k) → IsDir (dirEntry env v c s k) → DirReach env v (entryCluster (dirEntry env v c s k))

inductive DirCall (env : Env) (v : VolumeInfo) : SdCall → Prop
  | lookup {c : UInt32} : v.Valid c → DirCall env v (fatRead v c)
  | sector {c : UInt32} {s : Nat} : DirReach env v c → s < v.sectorsPerCluster.toNat →
      DirCall env v (.readBlock (fatClusterToLba v c + UInt32.ofNat s))

/-- A directory entry on the card. -/
def OnCard (env : Env) (v : VolumeInfo) (e : Buf) : Prop :=
  ∃ c s k, DirReach env v c ∧ s < v.sectorsPerCluster.toNat ∧ k < 16 ∧ e = dirEntry env v c s k

/-- `info` was decoded from an entry on the card that the iterator reports. -/
def FromEntry (env : Env) (v : VolumeInfo) (info : FileInfo) : Prop :=
  ∃ e, OnCard env v e ∧ Reported e ∧ Decodes info e

/-- The iterator stands in a reachable cluster, and a valid buffer holds a sector of one. -/
structure IterOk (env : Env) (v : VolumeInfo) (iter : DirIter) : Prop where
  cluster : DirReach env v iter.currentCluster
  buffer : iter.sectorBufferValid = true → ∃ c s, DirReach env v c ∧ s < v.sectorsPerCluster.toNat ∧
    ∀ i < 512, iter.sectorBuffer i = env.block (fatClusterToLba v c + UInt32.ofNat s) i

/-- `P` allows the reads of the directory code on the mounted volume `v`. -/
structure Admits (env : Env) (v : VolumeInfo) (P : World → Prop) : Prop where
  vol : ∀ w, P w → w.vol = v
  calls : ∀ w c, DirCall env v c → P w → P { w with calls := c :: w.calls }
  frames : ∀ w, P w → P { w with frames := w.frames + 1 }

variable {env : Env} {v : VolumeInfo} {P : World → Prop} (hv : v.Sectors) (hP : Admits env v P)
include hv hP

theorem getNextCluster_reach {c : UInt32} (hc : DirReach env v c) :
    Triple P (getNextCluster env c) fun r w => P w ∧ (r.1 = .success → DirReach env v r.2) := by
  intro w hw r w' e
  have hvol := hP.vol w hw
  subst hvol
  by_cases hval : w.vol.Valid c
  · rw [getNextCluster_valid hv.initialized hv.sector hval] at e
    cases e
    refine ⟨hP.calls w _ (.lookup hval) hw, fun hs => ?_⟩
    split at hs
    · cases hs
    · rename_i hf
      rw [if_neg hf]
      exact .next hc hval (Prod.ext hs rfl)
  · rw [getNextCluster_invalid hv.initialized hval] at e
    cases e
    exact ⟨hw, fun h => by cases h⟩

omit hv in
theorem readSector_reach (iter : DirIter) (hc : DirReach env v iter.currentCluster)
    (hs : iter.currentSectorInCluster.toNat < v.sectorsPerCluster.toNat) :
    Triple P (readSector env iter) fun r w => P w ∧ r.2.currentCluster = iter.currentCluster ∧
      (r.1 = .success → IterOk env v r.2 ∧ r.2.sectorBufferValid = true) := by
  intro w hw r w' e
  have hvol := hP.vol w hw
  have hcall : DirCall env v (.readBlock (fatClusterToLba v iter.currentCluster + iter.currentSectorInCluster)) := by
    have := DirCall.sector hc hs
    rwa [UInt32.ofNat_toNat] at this
  simp only [readSector, bind_apply, get_apply, ok_bind, hvol, sdReadBlock] at e
  by_cases hf : env.fails w.calls.length = true
  · rw [sdRead_fail hf] at e
    cases e
    exact ⟨hP.calls w _ hcall hw, rfl, fun h => by cases h⟩
  · rw [sdRead_ok (by simpa using hf)] at e
    cases e
    refine ⟨hP.calls w _ hcall hw, rfl, fun _ => ⟨⟨hc, fun _ => ⟨_, _, hc, hs, fun i hi => ?_⟩⟩, rfl⟩⟩
    simp [blit, hi]

theorem loadSector_reach {iter : DirIter} (hi : DirReach env v iter.currentCluster) :
    Triple P (loadSector env iter) fun r w => P w ∧ DirReach env v r.2.currentCluster ∧
      (r.1 = .success → IterOk env v r.2 ∧ r.2.sectorBufferValid = true) := by
  unfold loadSector
  refine Triple.get_bind fun t ht => ?_
  have here : ∀ s, s = t → P s := fun s hs => hs ▸ ht
  have hvol := hP.vol t ht
  have hspc : v.sectorsPerCluster.toUInt32.toNat = v.sectorsPerCluster.toNat := UInt8.toNat_toUInt32 _
  refine Triple.ite (fun _ => ?_) fun hlt => ?_
  · refine Triple.bind ((getNextCluster_reach hv hP hi).conseq here fun _ _ h => h) fun r => ?_
    refine Triple.ite (fun _ => Triple.pure fun w h => ⟨h.1, hi, fun hs => by contradiction⟩) fun hr => ?_
    rintro w ⟨hw, hd⟩ r' w' e
    have hd' := hd (by simpa using hr)
    have := readSector_reach hP { iter with
      currentSectorInCluster := 0
      currentEntryInSector := 0
      currentCluster := r.2 } hd' hv.spc_pos w hw r' w' e
    exact ⟨this.1, by rw [this.2.1]; exact hd', this.2.2⟩
  · rw [hvol, UInt32.le_iff_toNat_le, hspc] at hlt
    refine (readSector_reach hP { iter with
      currentSectorInCluster := iter.currentSectorInCluster + 1
      currentEntryInSector := 0 } hi (Nat.lt_of_not_le hlt)).conseq here fun r w h => ?_
    exact ⟨h.1, by rw [h.2.1]; exact hi, h.2.2⟩

/-- What a turn may lead to. -/
def TurnOk (env : Env) (v : VolumeInfo) : Turn → Prop
  | .done res iter info => DirReach env v iter.currentCluster ∧
      (res = .success → IterOk env v iter ∧ FromEntry env v info)
  | .again iter _ _ => IterOk env v iter

omit hv hP in
theorem entryTurn_ok {entry e : Buf} (he : OnCard env v e) (hae : Agree entry e) {iter : DirIter} (hi : IterOk env v iter)
    (l : LfnLocals) (info : FileInfo) : TurnOk env v (entryTurn entry iter l info) := by
  have hkeep : ∀ k, IterOk env v { iter with lfnChecksum := k } := fun k => ⟨hi.cluster, hi.buffer⟩
  by_cases h0 : e 0 = 0
  · rw [entryTurn_ends hae iter l info h0]
    exact ⟨hi.cluster, fun h => by cases h⟩
  by_cases hr : Reported e
  · rw [entryTurn_reports hae iter l info hr]
    exact ⟨hi.cluster, fun _ => ⟨hkeep 0, e, he, hr, sfnEntry_decodes hae _ l info⟩⟩
  · obtain ⟨k, l', info', e⟩ := entryTurn_skips hae iter l info h0 hr
    rw [e]
    exact hkeep k

omit hv hP in
theorem nextEntry_ok {iter : DirIter} (hi : IterOk env v iter) (hb : iter.sectorBufferValid = true) (l : LfnLocals)
    (info : FileInfo) : Triple P (nextEntry iter l info) fun t w => P w ∧ TurnOk env v t := by
  unfold nextEntry
  refine Triple.ite (fun _ => Triple.never fun s _ => ⟨_, rfl⟩) fun hlt => Triple.pure fun w hw => ⟨hw, ?_⟩
  obtain ⟨c, s, hc, hs, hbuf⟩ := hi.buffer hb
  have hk : iter.currentEntryInSector.toNat < 16 := by omega
  have hagree : Agree (fun i => iter.sectorBuffer (iter.currentEntryInSector.toNat * 32 + i))
      (dirEntry env v c s iter.currentEntryInSector.toNat) := fun i h => hbuf _ (by omega)
  have hi' : IterOk env v { iter with currentEntryInSector := iter.currentEntryInSector + 1 } :=
    ⟨hi.cluster, hi.buffer⟩
  exact entryTurn_ok ⟨c, s, _, hc, hs, hk, rfl⟩ hagree hi' l info

theorem dirTurn_reach {iter : DirIter} (hi : IterOk env v iter) (l : LfnLocals) (info : FileInfo) :
    Triple P (dirTurn env iter l info) fun t w => P w ∧ TurnOk env v t := by
  unfold dirTurn
  refine Triple.get_bind fun t ht => ?_
  have here : ∀ s, s = t → P s := fun s hs => hs ▸ ht
  refine Triple.ite (fun _ => ?_) fun hval => ?_
  · refine Triple.bind ((loadSector_reach hv hP hi.cluster).conseq here fun _ _ h => h) fun r => ?_
    refine Triple.ite (fun hr => Triple.pure fun w h => ⟨h.1, h.2.1, fun hs => absurd hs hr⟩) fun hr => ?_
    rintro w ⟨hw, -, hok⟩ a w' e
    obtain ⟨hi', hb⟩ := hok (by simpa using hr)
    exact nextEntry_ok hi' hb l info w hw a w' e
  · have hb : iter.sectorBufferValid = true := by
      cases h : iter.sectorBufferValid with
      | true => rfl
      | false => exact absurd (Or.inl h) hval
    exact (nextEntry_ok hi hb l info).conseq here fun _ _ h => h

omit hv hP in
/-- A directory among the entries is reachable itself. -/
theorem FromEntry.dirReach {info : FileInfo} (h : FromEntry env v info) (hd : info.isDirectory = true) :
    DirReach env v info.firstCluster := by
  obtain ⟨e, ⟨c, s, k, hc, hs, hk, rfl⟩, hrep, hdec⟩ := h
  rw [hdec.firstCluster]
  exact .sub hc hs hk hrep (hdec.isDirectory.mp hd)

theorem reach_keeps : Keeps env P (IterOk env v) (FromEntry env v) := by
  refine ⟨hP.frames, fun iter l info hi => ?_, fun info hf hd => ⟨hf.dirReach hd, fun h => by cases h⟩⟩
  refine (dirTurn_reach hv hP hi l info).conseq (fun _ h => h) fun t w h => ⟨h.1, ?_⟩
  cases t with
  | done res iter info => exact h.2.2
  | again iter l info => exact h.2

/-- Path resolution reads sectors of reachable directories and looks up valid clusters; a
    file it finds is an entry of one of these directories. -/
theorem getFile_reach (fuel : Nat) (path : List UInt8) (file : FileInfo) :
    Triple P (getFile env fuel path file) fun r w => P w ∧
      (r.1 = .success → FromEntry env v r.2 ∧ r.2.isDirectory = false) := by
  refine getFile_walk (reach_keeps hv hP) (fun w hw => ?_) fuel path file
  rw [hP.vol w hw]
  exact ⟨.root, fun h => by cases h⟩

end OpenGpos.Fat
