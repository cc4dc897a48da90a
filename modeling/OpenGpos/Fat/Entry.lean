/-
  OpenGpos.Fat.Entry — the 32-byte entries of a directory: which of them the iterator
  reports, and what it decodes (`entryTurn_ends`, `entryTurn_skips`, `entryTurn_reports`).
-/
import OpenGpos.Fat.Dir

namespace OpenGpos.Fat

open OpenGpos.Lib.Bytes

/-- Entry `k` of sector `s` of cluster `c`. -/
def dirEntry (env : Env) (v : VolumeInfo) (c : UInt32) (s k : Nat) : Buf :=
  fun i => env.block (fatClusterToLba v c + UInt32.ofNat s) (k * 32 + i)

/-- An entry that the iterator reports: not the end mark, not deleted, no long-name entry
    and no volume label. -/
def Reported (e : Buf) : Prop :=
  e 0 ≠ 0 ∧ e 0 ≠ 0xE5 ∧ e 11 &&& 0x0F ≠ 0x0F ∧ ¬ (e 11 &&& 0x08 ≠ 0 ∧ e 11 &&& 0x10 = 0)

instance (e : Buf) : Decidable (Reported e) := by unfold Reported; infer_instance

def IsDir (e : Buf) : Prop := e 11 &&& 0x10 ≠ 0

instance (e : Buf) : Decidable (IsDir e) := by unfold IsDir; infer_instance

/-- The first cluster an entry gives. -/
def entryCluster (e : Buf) : UInt32 := ((readLe16 e 20).toUInt32 <<< 16) ||| (readLe16 e 26).toUInt32

/-- Two buffers hold the same entry. -/
def Agree (e e' : Buf) : Prop := ∀ i < 32, e i = e' i

theorem Agree.readLe16 {e e' : Buf} (h : Agree e e') (o : Nat) (ho : o + 1 < 32) : readLe16 e o = readLe16 e' o := by
  simp only [OpenGpos.Fat.readLe16, h o (by omega), h (o + 1) ho]

theorem Agree.readLe32 {e e' : Buf} (h : Agree e e') (o : Nat) (ho : o + 3 < 32) : readLe32 e o = readLe32 e' o := by
  simp only [OpenGpos.Fat.readLe32, h o (by omega), h (o + 1) (by omega), h (o + 2) (by omega), h (o + 3) ho]

theorem Agree.entryCluster {e e' : Buf} (h : Agree e e') : entryCluster e = entryCluster e' := by
  simp only [OpenGpos.Fat.entryCluster, h.readLe16 20 (by omega), h.readLe16 26 (by omega)]

theorem Agree.sfnChars {e e' : Buf} (h : Agree e e') : sfnChars e = sfnChars e' := by
  have h8 : (List.range 8).map e = (List.range 8).map e' :=
    List.map_congr_left fun i hi => h i (by have := List.mem_range.mp hi; omega)
  have h3 : ((List.range 3).map fun j => e (8 + j)) = (List.range 3).map fun j => e' (8 + j) :=
    List.map_congr_left fun i hi => h (8 + i) (by have := List.mem_range.mp hi; omega)
  rw [OpenGpos.Fat.sfnChars, h8, h3, h 8 (by omega)]; rfl

theorem Agree.reported {e e' : Buf} (h : Agree e e') : Reported e ↔ Reported e' := by
  simp only [Reported, h 0 (by omega), h 11 (by omega)]

/-- `info` holds the fields of entry `e`. -/
structure Decodes (info : FileInfo) (e : Buf) : Prop where
  firstCluster : info.firstCluster = entryCluster e
  fileSize : info.fileSize = readLe32 e 28
  attributes : info.attributes = e 11
  isDirectory : info.isDirectory = true ↔ IsDir e

theorem sfnEntry_decodes {entry e : Buf} (h : Agree entry e) (k : UInt8) (l : LfnLocals) (info : FileInfo) :
    Decodes (sfnEntry entry k l info) e :=
  ⟨h.entryCluster, h.readLe32 28 (by omega), h 11 (by omega), by simp [sfnEntry, IsDir, h 11 (by omega)]⟩

theorem lfnEntry_iter (entry : Buf) (iter : DirIter) (l : LfnLocals) :
    ∃ k, (lfnEntry entry iter l).1 = { iter with lfnChecksum := k } := by
  unfold lfnEntry
  dsimp only
  split
  · exact ⟨_, rfl⟩
  · split
    · exact ⟨_, rfl⟩
    · split <;> exact ⟨_, rfl⟩

section
variable {entry e : Buf} (h : Agree entry e) (iter : DirIter) (l : LfnLocals) (info : FileInfo)
include h

theorem entryTurn_ends (h0 : e 0 = 0) : entryTurn entry iter l info = .done .noMoreEntries iter info := by
  rw [← h 0 (by omega)] at h0
  rw [entryTurn, if_pos h0]

theorem entryTurn_reports (hr : Reported e) :
    entryTurn entry iter l info = .done .success { iter with lfnChecksum := 0 } (sfnEntry entry iter.lfnChecksum l info) := by
  obtain ⟨h0, h1, h2, h3⟩ := h.reported.mpr hr
  have hlabel : ¬ ((sfnEntry entry iter.lfnChecksum l info).attributes &&& 0x08 ≠ 0 ∧
      (sfnEntry entry iter.lfnChecksum l info).isDirectory = false) := by
    simpa [sfnEntry] using h3
  rw [entryTurn, if_neg h0, if_neg h1, if_neg h2]
  exact if_neg hlabel

theorem entryTurn_skips (h0 : e 0 ≠ 0) (hr : ¬ Reported e) :
    ∃ k l' info', entryTurn entry iter l info = .again { iter with lfnChecksum := k } l' info' := by
  rw [← h 0 (by omega)] at h0
  rw [← h.reported] at hr
  rw [entryTurn, if_neg h0]
  by_cases h1 : entry 0 = 0xE5
  · rw [if_pos h1]; exact ⟨iter.lfnChecksum, l, info, rfl⟩
  rw [if_neg h1]
  by_cases h2 : entry 11 &&& 0x0F = 0x0F
  · rw [if_pos h2]
    obtain ⟨k, hk⟩ := lfnEntry_iter entry iter l
    exact ⟨k, (lfnEntry entry iter l).2, info, by rw [← hk]⟩
  rw [if_neg h2]
  -- what is left is a volume label
  have h3 : entry 11 &&& 0x08 ≠ 0 ∧ entry 11 &&& 0x10 = 0 := by
    by_contra hn
    exact hr ⟨h0, h1, h2, hn⟩
  have hlabel : (sfnEntry entry iter.lfnChecksum l info).attributes &&& 0x08 ≠ 0 ∧
      (sfnEntry entry iter.lfnChecksum l info).isDirectory = false := by
    simpa [sfnEntry] using h3
  exact ⟨0, { l with partsFound := 0 }, sfnEntry entry iter.lfnChecksum l info, if_pos hlabel⟩

end

end OpenGpos.Fat
