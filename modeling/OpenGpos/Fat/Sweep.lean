/-
  OpenGpos.Fat.Sweep — a call of the iterator in two parts. Which entries it looks at, and how it
  ends, does not depend on names (`sweep`); what the entries leave in the locals, in the checksum
  and in the record is a fold over them (`Decoding.pass`). `readDirLoop_sweep` puts the two
  together, on any card, with any failures.
-/
import OpenGpos.Fat.LongName

namespace OpenGpos.Fat

open OpenGpos.Lib.Bytes OpenGpos.Libc.Strings

/-! ## The entries of a call -/

/-- Up to where the entry is looked at: a sector is read if there is none left of the last one. -/
def fetch (env : Env) (iter : DirIter) : FatM (FatError × DirIter) := do
  let entriesPerSector := (← get).vol.bytesPerSector.toUInt32 / 32
  if iter.sectorBufferValid = false ∨ entriesPerSector ≤ iter.currentEntryInSector.toUInt32 then loadSector env iter
  else return (.success, iter)

/-- The entry at the cursor, and the cursor behind it. -/
def DirIter.entry (iter : DirIter) : Buf := fun i => iter.sectorBuffer (iter.currentEntryInSector.toNat * 32 + i)

def DirIter.advance (iter : DirIter) : DirIter := { iter with currentEntryInSector := iter.currentEntryInSector + 1 }

/-- The cursor is past the buffer. -/
def DirIter.Past (iter : DirIter) : Prop := 512 < iter.currentEntryInSector.toNat * 32 + 32

instance (iter : DirIter) : Decidable iter.Past := by unfold DirIter.Past; infer_instance

/-- The entries that a call decodes or passes over, and how it ends. -/
structure Sweep where
  entries : List Buf
  finish : Except Halt ((FatError × DirIter) × World)

def Sweep.behind (e : Buf) (s : Sweep) : Sweep := { s with entries := e :: s.entries }

def sweep (env : Env) : Nat → DirIter → World → Sweep
  | 0, _, _ => ⟨[], .error .spin⟩
  | fuel + 1, iter, w =>
    match fetch env iter w with
    | .error h => ⟨[], .error h⟩
    | .ok ((res, iter), w) =>
      if res ≠ .success then ⟨[], .ok ((res, iter), w)⟩
      else if iter.Past then ⟨[], .error .oob⟩
      else if iter.entry 0 = 0 then ⟨[], .ok ((.noMoreEntries, iter.advance), w)⟩
      else if Reported iter.entry then ⟨[iter.entry], .ok ((.success, iter.advance), w)⟩
      else (sweep env fuel iter.advance w).behind iter.entry

/-- What the call comes to, with the locals and the record as they were. -/
def Sweep.decode (s : Sweep) (d : Decoding) : Except Halt ((FatError × DirIter × FileInfo) × World) :=
  let d' := s.entries.foldl Decoding.pass d
  s.finish.map fun r => ((r.1.1, { r.1.2 with lfnChecksum := d'.lfnChecksum }, d'.info), r.2)

theorem Sweep.decode_behind (s : Sweep) (e : Buf) (d : Decoding) : (s.behind e).decode d = s.decode (d.pass e) := rfl

section
variable {env : Env} {w : World}

theorem dirTurn_fetch (iter : DirIter) (l : LfnLocals) (info : FileInfo) : dirTurn env iter l info w =
    (fetch env iter w).bind fun r =>
      if r.1.1 ≠ .success then .ok (.done r.1.1 r.1.2 info, r.2)
      else if r.1.2.Past then .error .oob
      else .ok (entryTurn r.1.2.entry r.1.2.advance l info, r.2) := by
  have hnext : ∀ (iter : DirIter) (w : World), nextEntry iter l info w =
      if iter.Past then .error .oob else .ok (entryTurn iter.entry iter.advance l info, w) := by
    intro iter w
    unfold nextEntry
    by_cases h : iter.Past
    · rw [if_pos h]
      exact congrFun (if_pos h) w
    · rw [if_neg h]
      exact congrFun (if_neg h) w
  unfold dirTurn fetch
  simp only [bind_apply, get_apply, ok_bind]
  by_cases h : iter.sectorBufferValid = false ∨ w.vol.bytesPerSector.toUInt32 / 32 ≤ iter.currentEntryInSector.toUInt32
  · rw [if_pos h, if_pos h, bind_apply]
    refine congrArg (Except.bind (loadSector env iter w)) (funext fun r => ?_)
    by_cases hr : r.1.1 ≠ .success
    · rw [if_pos hr, if_pos hr]
      rfl
    · rw [if_neg hr, if_neg hr]
      exact hnext _ _
  · rw [if_neg h, if_neg h, pure_apply, ok_bind]
    exact hnext iter w

/-- Another checksum in an iterator that is handed back. -/
def withChecksum (k : UInt8) (r : (FatError × DirIter) × World) : (FatError × DirIter) × World :=
  ((r.1.1, { r.1.2 with lfnChecksum := k }), r.2)

theorem readSector_checksum (k : UInt8) (iter : DirIter) :
    readSector env { iter with lfnChecksum := k } w = (readSector env iter w).map (withChecksum k) := by
  unfold readSector
  simp only [bind_apply, get_apply, ok_bind]
  cases sdReadBlock env (fatClusterToLba w.vol iter.currentCluster + iter.currentSectorInCluster) iter.sectorBuffer w with
  | error h => rfl
  | ok r =>
    rw [ok_bind, ok_bind]
    by_cases hr : (!r.1.1) = true
    · rw [if_pos hr, if_pos hr]
      rfl
    · rw [if_neg hr, if_neg hr]
      rfl

theorem loadSector_checksum (k : UInt8) (iter : DirIter) :
    loadSector env { iter with lfnChecksum := k } w = (loadSector env iter w).map (withChecksum k) := by
  unfold loadSector
  simp only [bind_apply, get_apply, ok_bind]
  by_cases h : w.vol.sectorsPerCluster.toUInt32 ≤ iter.currentSectorInCluster + 1
  · rw [if_pos h, if_pos h, bind_apply, bind_apply]
    cases getNextCluster env iter.currentCluster w with
    | error h => rfl
    | ok r =>
      rw [ok_bind, ok_bind]
      by_cases hr : r.1.1 ≠ .success
      · rw [if_pos hr, if_pos hr]
        rfl
      · rw [if_neg hr, if_neg hr]
        exact readSector_checksum k { iter with
          currentSectorInCluster := 0
          currentEntryInSector := 0
          currentCluster := r.1.2 }
  · rw [if_neg h, if_neg h]
    exact readSector_checksum k { iter with
      currentSectorInCluster := iter.currentSectorInCluster + 1
      currentEntryInSector := 0 }

/-- The checksum is not looked at. -/
theorem fetch_checksum (k : UInt8) (iter : DirIter) :
    fetch env { iter with lfnChecksum := k } w = (fetch env iter w).map (withChecksum k) := by
  unfold fetch
  simp only [bind_apply, get_apply, ok_bind]
  by_cases h : iter.sectorBufferValid = false ∨ w.vol.bytesPerSector.toUInt32 / 32 ≤ iter.currentEntryInSector.toUInt32
  · rw [if_pos h, if_pos h]
    exact loadSector_checksum k iter
  · rw [if_neg h, if_neg h]
    rfl

/-- A call is its sweep, decoded. -/
theorem readDirLoop_sweep (fuel : Nat) : ∀ (iter : DirIter) (d : Decoding) (w : World),
    readDirLoop env fuel { iter with lfnChecksum := d.lfnChecksum } d.locals d.info w =
      (sweep env fuel iter w).decode d := by
  induction fuel with
  | zero => exact fun _ _ _ => rfl
  | succ fuel ih =>
    intro iter d w
    cases hf : fetch env iter w with
    | error h =>
      rw [readDirLoop, bind_apply, dirTurn_fetch, fetch_checksum, sweep, hf]
      rfl
    | ok r =>
      obtain ⟨⟨res, iter1⟩, w1⟩ := r
      have ht : dirTurn env { iter with lfnChecksum := d.lfnChecksum } d.locals d.info w =
          if res ≠ .success then .ok (.done res { iter1 with lfnChecksum := d.lfnChecksum } d.info, w1)
          else if iter1.Past then .error .oob
          else .ok (entryTurn iter1.entry { iter1.advance with lfnChecksum := d.lfnChecksum } d.locals d.info, w1) := by
        rw [dirTurn_fetch, fetch_checksum, hf]
        rfl
      rw [sweep, hf]
      dsimp only
      by_cases hres : res ≠ .success
      · rw [if_pos hres] at ht ⊢
        exact readDirLoop_done ht fuel
      rw [if_neg hres] at ht ⊢
      by_cases hp : iter1.Past
      · rw [if_pos hp] at ht ⊢
        rw [readDirLoop, bind_apply, ht]
        rfl
      rw [if_neg hp] at ht ⊢
      by_cases h0 : iter1.entry 0 = 0
      · rw [entryTurn_ends (fun _ _ => rfl) _ _ _ h0] at ht
        rw [if_pos h0]
        exact readDirLoop_done ht fuel
      rw [if_neg h0]
      by_cases hr : Reported iter1.entry
      · rw [entryTurn_last hr] at ht
        rw [if_pos hr]
        exact readDirLoop_done ht fuel
      · rw [entryTurn_pass h0 hr] at ht
        rw [if_neg hr, readDirLoop_again ht, Sweep.decode_behind]
        exact ih iter1.advance (d.pass iter1.entry) w1

end

/-! ## Along the entries -/

/-- At each of the entries `P` holds of it and of what `look` made of those before. -/
def Along {G : Type} (look : G → Buf → G) (P : G → Buf → Prop) (g : G) (es : List Buf) : Prop :=
  ∀ before e after, es = before ++ e :: after → P (before.foldl look g) e

section
variable {G : Type} {look : G → Buf → G} {P : G → Buf → Prop} {g : G}

theorem along_nil : Along look P g [] := by
  intro before e after h
  simp at h

theorem along_cons {e : Buf} {es : List Buf} : Along look P g (e :: es) ↔ P g e ∧ Along look P (look g e) es := by
  constructor
  · intro h
    exact ⟨h [] e es rfl, fun before e' after he => h (e :: before) e' after (by rw [he]; rfl)⟩
  · rintro ⟨h1, h2⟩ before e' after he
    cases before with
    | nil =>
      cases he
      exact h1
    | cons x before =>
      cases he
      exact h2 before e' after rfl

instance instDecidableAlong [∀ g e, Decidable (P g e)] : ∀ (g : G) (es : List Buf), Decidable (Along look P g es)
  | _, [] => isTrue along_nil
  | g, e :: es =>
    have := instDecidableAlong (look g e) es
    decidable_of_iff' _ along_cons

end

end OpenGpos.Fat
