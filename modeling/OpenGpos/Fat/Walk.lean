/-
  OpenGpos.Fat.Walk — what a path resolution keeps. `Keeps` is about one turn of the
  iterator's loop: it keeps what `P` says of the state and `I` of the iterator, and reports
  only files in `F`. It then holds of the loop, the search of a directory, the walk along a
  path and `get_file` (`getFile_walk`).
-/
import OpenGpos.Fat.File
import OpenGpos.Lib.Hoare

namespace OpenGpos.Fat

open OpenGpos.Lib.Hoare

variable {P : World → Prop} {I : DirIter → Prop} {F : FileInfo → Prop}

/-- Where a turn may lead. -/
def Turn.Keeps (I : DirIter → Prop) (F : FileInfo → Prop) : Turn → Prop
  | .done res iter info => res = .success → I iter ∧ F info
  | .again iter _ _ => I iter

/-- How a search may end. -/
def Scan.Keeps (I : DirIter → Prop) (F : FileInfo → Prop) : Scan → Prop
  | .ret res => res ≠ .success
  | .found info => F info ∧ info.isDirectory = false
  | .enter iter _ => I iter

structure Keeps (env : Env) (P : World → Prop) (I : DirIter → Prop) (F : FileInfo → Prop) : Prop where
  frames : ∀ w, P w → P { w with frames := w.frames + 1 }
  turn : ∀ iter l info, I iter → Triple P (dirTurn env iter l info) fun t w => P w ∧ t.Keeps I F
  enter : ∀ info, F info → info.isDirectory = true → I (freshIter info.firstCluster)

theorem fatInitRootDirIterator_fresh (iter : DirIter) (c : UInt32) :
    Triple P (fatInitRootDirIterator iter c) fun r w => P w ∧ (r.1 = .success → r.2 = freshIter c) := by
  unfold fatInitRootDirIterator
  refine Triple.get_bind fun t ht => ?_
  refine Triple.ite (fun _ => Triple.pure fun s hs => ⟨hs ▸ ht, fun h => by cases h⟩) fun _ => ?_
  exact Triple.pure fun s hs => ⟨hs ▸ ht, fun _ => rfl⟩

variable {env : Env} (hk : Keeps env P I F)
include hk

theorem readDirLoop_walk (fuel : Nat) : ∀ {iter : DirIter}, I iter → ∀ (l : LfnLocals) (info : FileInfo),
    Triple P (readDirLoop env fuel iter l info) fun r w => P w ∧ (r.1 = .success → I r.2.1 ∧ F r.2.2) := by
  induction fuel with
  | zero => exact fun _ _ _ => Triple.never fun s _ => ⟨_, rfl⟩
  | succ fuel ih =>
    intro iter hi l info
    unfold readDirLoop
    refine Triple.bind (hk.turn iter l info hi) fun turn => ?_
    cases turn with
    | done res iter info => exact Triple.pure fun w h => h
    | again iter l info => exact fun w h => ih h.2 l info w h.1

theorem fatReadNextDirEntry_walk (fuel : Nat) {iter : DirIter} (hi : I iter) (info : FileInfo) :
    Triple P (fatReadNextDirEntry env fuel iter info) fun r w => P w ∧ (r.1 = .success → I r.2.1 ∧ F r.2.2) := by
  unfold fatReadNextDirEntry
  refine Triple.get_bind fun t ht => ?_
  refine Triple.ite (fun _ => Triple.pure fun s hs => ⟨hs ▸ ht, fun h => by cases h⟩) fun _ => ?_
  refine Triple.bind (R := fun _ => P) (Triple.modify fun s hs => ?_) fun _ => readDirLoop_walk hk fuel hi _ info
  rw [hs]; exact hk.frames t ht

theorem scanDir_walk (name : List UInt8) (final : Bool) (fuel : Nat) : ∀ {iter : DirIter}, I iter → ∀ (info : FileInfo),
    Triple P (scanDir env fuel name final iter info) fun r w => P w ∧ r.Keeps I F := by
  induction fuel with
  | zero => exact fun _ _ => Triple.never fun s _ => ⟨_, rfl⟩
  | succ fuel ih =>
    intro iter hi info
    unfold scanDir
    refine Triple.bind (fatReadNextDirEntry_walk hk fuel hi info) fun r => ?_
    refine Triple.ite (fun hs => ?_) fun hs => ?_
    · have again : Triple (fun w => P w ∧ (r.1 = .success → I r.2.1 ∧ F r.2.2))
          (scanDir env fuel name final r.2.1 r.2.2) fun r w => P w ∧ r.Keeps I F :=
        fun w h => ih (h.2 hs).1 r.2.2 w h.1
      refine Triple.ite (fun _ => ?_) fun _ => again
      refine Triple.ite (fun hd => ?_) fun _ => ?_
      · -- into the directory
        rintro w ⟨hw, hok⟩ a w' e
        have hfresh := hk.enter _ (hok hs).2 hd.1
        have enter : Triple P (fatInitRootDirIterator r.2.1 r.2.2.firstCluster >>= fun r' =>
            (if r'.1 ≠ .success then pure (.ret r'.1) else pure (.enter r'.2 r.2.2) : FatM Scan))
            fun r w => P w ∧ r.Keeps I F := by
          refine Triple.bind (fatInitRootDirIterator_fresh r.2.1 r.2.2.firstCluster) fun r' => ?_
          refine Triple.ite (fun hne => Triple.pure fun w h => ⟨h.1, hne⟩) fun hne => Triple.pure fun w h => ⟨h.1, ?_⟩
          show I r'.2
          rw [h.2 (by simpa using hne)]
          exact hfresh
        exact enter w hw a w' e
      · refine Triple.ite (fun hd => Triple.pure fun w h => ⟨h.1, (h.2 hs).2, by simpa using hd.2⟩) fun _ => ?_
        exact Triple.ite (fun _ => Triple.pure fun w h => ⟨h.1, by simp [Scan.Keeps]⟩) fun _ => again
    · refine Triple.ite (fun _ => Triple.pure fun w h => ⟨h.1, by simp [Scan.Keeps]⟩) fun _ => ?_
      exact Triple.pure fun w h => ⟨h.1, hs⟩

theorem walkPath_walk (file : FileInfo) (fuel : Nat) : ∀ (path : List UInt8) {iter : DirIter}, I iter → ∀ (info : FileInfo),
    Triple P (walkPath env fuel path iter info file) fun r w => P w ∧
      (r.1 = .success → F r.2 ∧ r.2.isDirectory = false) := by
  induction fuel with
  | zero => exact fun _ _ _ _ => Triple.never fun s _ => ⟨_, rfl⟩
  | succ fuel ih =>
    intro path iter hi info
    -- what follows a scan is the same in both branches
    have after : ∀ (rest : List UInt8) (r : Scan), Triple (fun w => P w ∧ r.Keeps I F) (afterScan env fuel rest file r)
        fun r w => P w ∧ (r.1 = .success → F r.2 ∧ r.2.isDirectory = false) := by
      intro rest r
      cases r with
      | ret res => exact Triple.pure fun w h => ⟨h.1, fun hs => absurd hs h.2⟩
      | found info => exact Triple.pure fun w h => ⟨h.1, fun _ => h.2⟩
      | enter iter info => exact fun w h => ih rest h.2 info w h.1
    cases hb : behind path with
    | none =>
      rw [walkPath_last fuel iter info file hb]
      exact Triple.bind (scanDir_walk hk _ _ fuel hi info) (after [])
    | some rest =>
      by_cases hn : component path = []
      · rw [walkPath_empty fuel iter info file hb hn]
        exact ih rest hi info
      · rw [walkPath_through fuel iter info file hb hn]
        exact Triple.bind (scanDir_walk hk _ _ fuel hi info) (after rest)

theorem getFile_walk (hroot : ∀ w, P w → I (freshIter w.vol.rootDirCluster)) (fuel : Nat) (path : List UInt8)
    (file : FileInfo) : Triple P (getFile env fuel path file) fun r w => P w ∧
      (r.1 = .success → F r.2 ∧ r.2.isDirectory = false) := by
  unfold getFile
  refine Triple.get_bind fun t ht => ?_
  have hi := hroot t ht
  refine Triple.bind ((fatInitRootDirIterator_fresh default t.vol.rootDirCluster).conseq (P := P)
    (fun s hs => hs ▸ ht) fun _ _ h => h) fun r => ?_
  refine Triple.ite (fun hne => Triple.pure fun w h => ⟨h.1, fun hs => absurd hs hne⟩) fun hne => ?_
  cases path with
  | nil => exact Triple.never fun s _ => ⟨_, rfl⟩
  | cons c path =>
    rintro w ⟨hw, hfresh⟩
    rw [hfresh (by simpa using hne)]
    exact walkPath_walk hk file fuel path hi default w hw

end OpenGpos.Fat
