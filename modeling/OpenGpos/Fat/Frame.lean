/-
  OpenGpos.Fat.Frame — looking a path up reads the card and nothing else: whatever is said
  of the volume and the handles alone (`Quiet`) still holds after `getFile`.
-/
import OpenGpos.Fat.Walk

namespace OpenGpos.Fat

open OpenGpos.Lib.Hoare

/-- `P` does not depend on the SD reads so far. -/
structure Steady (P : World → Prop) : Prop where
  calls : ∀ w c, P w → P { w with calls := c :: w.calls }

/-- Nor on the frames counted so far. -/
structure Quiet (P : World → Prop) : Prop extends Steady P where
  frames : ∀ w, P w → P { w with frames := w.frames + 1 }

variable {P : World → Prop} (env : Env)

section
variable (hP : Steady P)
include hP

theorem sdRead_keeps (call : SdCall) (buf : Buf) (dst n : Nat) (data : Nat → UInt8) :
    Triple P (sdRead env call buf dst n data) fun _ => P := by
  intro w hw a w' e
  simp only [sdRead] at e
  split at e <;> (cases e; exact hP.calls w call hw)

theorem getNextCluster_keeps (c : UInt32) : Triple P (getNextCluster env c) fun _ => P := by
  unfold getNextCluster
  refine Triple.get_bind fun t ht => ?_
  have here : ∀ s, s = t → P s := fun s hs => hs ▸ ht
  refine Triple.ite (fun _ => Triple.pure here) fun _ => ?_
  refine Triple.ite (fun _ => Triple.pure here) fun _ => ?_
  refine Triple.ite (fun _ => Triple.never fun s _ => ⟨_, rfl⟩) fun _ => ?_
  refine Triple.bind ((sdRead_keeps env hP _ _ _ _ _).conseq here fun _ _ h => h) fun r => ?_
  exact Triple.ite (fun _ => Triple.pure fun _ h => h) fun _ => Triple.pure fun _ h => h

theorem readSector_keeps (iter : DirIter) : Triple P (readSector env iter) fun _ => P := by
  unfold readSector
  refine Triple.get_bind fun t ht => ?_
  refine Triple.bind ((sdRead_keeps env hP _ _ _ _ _).conseq (fun s hs => hs ▸ ht) fun _ _ h => h) fun r => ?_
  exact Triple.ite (fun _ => Triple.pure fun _ h => h) fun _ => Triple.pure fun _ h => h

theorem loadSector_keeps (iter : DirIter) : Triple P (loadSector env iter) fun _ => P := by
  unfold loadSector
  refine Triple.get_bind fun t ht => ?_
  have here : ∀ s, s = t → P s := fun s hs => hs ▸ ht
  refine Triple.ite (fun _ => ?_) fun _ => (readSector_keeps env hP _).conseq here fun _ _ h => h
  refine Triple.bind ((getNextCluster_keeps env hP _).conseq here fun _ _ h => h) fun r => ?_
  exact Triple.ite (fun _ => Triple.pure fun _ h => h) fun _ => readSector_keeps env hP _

omit hP in
theorem nextEntry_keeps (iter : DirIter) (l : LfnLocals) (info : FileInfo) :
    Triple P (nextEntry iter l info) fun _ => P := by
  unfold nextEntry
  exact Triple.ite (fun _ => Triple.never fun s _ => ⟨_, rfl⟩) fun _ => Triple.pure fun _ h => h

theorem dirTurn_keeps (iter : DirIter) (l : LfnLocals) (info : FileInfo) :
    Triple P (dirTurn env iter l info) fun _ => P := by
  unfold dirTurn
  refine Triple.get_bind fun t ht => ?_
  have here : ∀ s, s = t → P s := fun s hs => hs ▸ ht
  refine Triple.ite (fun _ => ?_) fun _ => (nextEntry_keeps iter l info).conseq here fun _ _ h => h
  refine Triple.bind ((loadSector_keeps env hP iter).conseq here fun _ _ h => h) fun r => ?_
  exact Triple.ite (fun _ => Triple.pure fun _ h => h) fun _ => nextEntry_keeps _ l info

end

/-- One turn is within one call. -/
theorem dirTurn_frames {iter : DirIter} {l : LfnLocals} {info : FileInfo} {w w' : World} {t : Turn}
    (h : dirTurn env iter l info w = .ok (t, w')) : w'.frames = w.frames :=
  dirTurn_keeps env (P := fun s => s.frames = w.frames) ⟨fun _ _ h => h⟩ iter l info w rfl t w' h

section
variable (hP : Quiet P)
include hP

theorem quiet_keeps : Keeps env P (fun _ => True) fun _ => True := by
  refine ⟨hP.frames, fun iter l info _ => ?_, fun _ _ _ => trivial⟩
  refine (dirTurn_keeps env hP.toSteady iter l info).conseq (fun _ h => h) fun t w h => ⟨h, ?_⟩
  cases t with
  | done => exact fun _ => ⟨trivial, trivial⟩
  | again => trivial

theorem fatReadNextDirEntry_keeps (fuel : Nat) (iter : DirIter) (info : FileInfo) :
    Triple P (fatReadNextDirEntry env fuel iter info) fun _ => P :=
  (fatReadNextDirEntry_walk (quiet_keeps env hP) fuel trivial info).conseq (fun _ h => h) fun _ _ h => h.1

/-- Path resolution changes neither the volume nor a handle. -/
theorem getFile_keeps (fuel : Nat) (path : List UInt8) (file : FileInfo) :
    Triple P (getFile env fuel path file) fun _ => P :=
  (getFile_walk (quiet_keeps env hP) (fun _ _ => trivial) fuel path file).conseq (fun _ h => h) fun _ _ h => h.1

end

/-! ## Reading -/

/-- What a read keeps: nothing but the cursor of its handle moves. `Q` is what is said of that
    handle. -/
theorem readLoop_keeps (hP : Steady P) {i : Slot} {Q : FileHandle → Prop} (hQ : ∀ w, P w → Q (w.handles i))
    (hset : ∀ w h, P w → Q h → P { w with handles := fun j => if j = i then h else w.handles j })
    (hmove : ∀ h c o p, Q h → Q { h with currentCluster := c, currentOffset := o, currentFilePos := p })
    (actual : UInt32) (fuel : Nat) : ∀ (total : UInt32) (buf : Buf),
    Triple P (readLoop env i actual fuel total buf) fun _ => P := by
  induction fuel with
  | zero => exact fun _ _ => Triple.never fun s _ => ⟨_, rfl⟩
  | succ fuel ih =>
    intro total buf
    unfold readLoop
    refine Triple.ite (fun _ => ?_) fun _ => Triple.pure fun _ h => h
    refine Triple.get_bind fun t ht => Triple.get_bind fun t' ht' => ?_
    have here : ∀ s, s = t' → P s := by
      rintro s rfl
      rw [ht']; exact ht
    have hq := hQ t' (here t' rfl)
    refine Triple.ite (fun _ => Triple.never fun s _ => ⟨_, rfl⟩) fun _ => ?_
    refine Triple.bind ((sdRead_keeps env hP _ _ _ _ _).conseq here fun _ _ h => h) fun r => ?_
    refine Triple.ite (fun _ => Triple.pure fun _ h => h) fun _ => ?_
    refine Triple.bind (Triple.modify fun s hs => hset s _ hs (hmove _ _ _ _ hq)) fun _ => Triple.ite (fun _ => ?_) fun _ => ih _ _
    refine Triple.bind (getNextCluster_keeps env hP _) fun r => ?_
    refine Triple.ite (fun _ => Triple.pure fun _ h => h) fun _ => Triple.ite (fun _ => Triple.pure fun _ h => h) fun _ => ?_
    exact Triple.bind (Triple.modify fun s hs => hset s _ hs (hmove _ _ _ _ hq)) fun _ => ih _ _

theorem fat32Read_keeps (hP : Steady P) {Q : Slot → FileHandle → Prop} (hQ : ∀ i w, P w → Q i (w.handles i))
    (hset : ∀ i w h, P w → Q i h → P { w with handles := fun j => if j = i then h else w.handles j })
    (hmove : ∀ i h c o p, Q i h → Q i { h with currentCluster := c, currentOffset := o, currentFilePos := p })
    (id : UInt32) (buffer : Option Buf) (n : UInt32) : Triple P (fat32Read env id buffer n) fun _ => P := by
  have hfile : ∀ buffer, Triple P (fatReadFile env id buffer n) fun _ => P := by
    intro buffer
    unfold fatReadFile
    refine Triple.get_bind fun t ht => ?_
    have here : ∀ s, s = t → P s := fun s hs => hs ▸ ht
    refine Triple.ite (fun _ => Triple.pure here) fun _ => ?_
    cases buffer with
    | none => exact Triple.pure here
    | some buf =>
      refine Triple.dite (fun hi => ?_) fun _ => Triple.pure here
      refine Triple.ite (fun _ => Triple.pure here) fun _ => Triple.ite (fun _ => Triple.pure here) fun _ => ?_
      have hloop := readLoop_keeps env hP (hQ ⟨id.toNat, hi⟩) (hset _) (hmove _)
      exact Triple.bind ((hloop _ _ _ _).conseq here fun _ _ h => h) fun _ => Triple.pure fun _ h => h
  unfold fat32Read
  refine Triple.dite (fun _ => ?_) fun _ => Triple.pure fun _ h => h
  refine Triple.ite (fun _ => Triple.pure fun _ h => h) fun _ => Triple.get_bind fun t ht => ?_
  have here : ∀ s, s = t → P s := fun s hs => hs ▸ ht
  refine Triple.ite (fun _ => Triple.pure here) fun _ => ?_
  exact Triple.bind ((hfile _).conseq here fun _ _ h => h) fun _ => Triple.pure fun _ h => h

/-- A read opens and closes nothing. -/
theorem fat32Read_isFree {id n : UInt32} {buffer : Option Buf} {w w' : World} {r : Bool × Option Buf}
    (h : fat32Read env id buffer n w = .ok (r, w')) (j : Slot) : (w'.handles j).isFree = (w.handles j).isFree := by
  let P : World → Prop := fun s => ∀ j, (s.handles j).isFree = (w.handles j).isFree
  have hset : ∀ i s (h : FileHandle), P s → h.isFree = (w.handles i).isFree →
      P { s with handles := fun j => if j = i then h else s.handles j } := by
    intro i s h hs hh j
    by_cases e : j = i
    · simpa [e] using hh
    · simpa [e] using hs j
  have hread : Triple P (fat32Read env id buffer n) fun _ => P :=
    fat32Read_keeps env ⟨fun _ _ h => h⟩ (Q := fun i h => h.isFree = (w.handles i).isFree) (fun i s h => h i) hset
      (fun _ _ _ _ _ h => h) id buffer n
  exact hread w (fun _ => rfl) r w' h j

theorem fat32Read_vol {id n : UInt32} {buffer : Option Buf} {w w' : World} {r : Bool × Option Buf}
    (h : fat32Read env id buffer n w = .ok (r, w')) : w'.vol = w.vol :=
  fat32Read_keeps env (P := fun s => s.vol = w.vol) ⟨fun _ _ h => h⟩ (Q := fun _ _ => True) (fun _ _ _ => trivial)
    (fun _ _ _ h _ => h) (fun _ _ _ _ _ h => h) id buffer n w rfl r w' h

end OpenGpos.Fat
