/-
  OpenGpos.Fat.Read — one `fat32_read` on a chain of clusters. A turn of the loop copies up
  to the end of the sector and, at the end of a cluster, looks up the next one
  (`readLoop_turn`). `readLoop_spec` is the run of the loop whatever SD reads fail: it
  delivers everything asked for, or stops at a failed data read with the cursor where the
  bytes end, or stops at a failed lookup between two clusters, with the cursor behind the
  first of them.
-/
import OpenGpos.Fat.File

namespace OpenGpos.Fat

open OpenGpos.Lib.Bytes

/-- Byte `p` of the data on a chain. -/
def chainByte (env : Env) (v : VolumeInfo) (cs : List UInt32) (p : Nat) : UInt8 :=
  clusterByte env v (cs.getD (p / v.bpc) 0) (p % v.bpc)

/-- The cursor of a handle is where its file position is on the chain. -/
structure At (v : VolumeInfo) (cs : List UInt32) (h : FileHandle) : Prop where
  offset : h.currentOffset.toNat = h.currentFilePos.toNat % v.bpc
  cluster : cs[h.currentFilePos.toNat / v.bpc]? = some h.currentCluster

/-- From `w` to `w'` only the cursor of handle `i` moved, and SD reads were made. -/
structure Moves (i : Slot) (w w' : World) : Prop where
  vol : w'.vol = w.vol
  frames : w'.frames = w.frames
  others : ∀ j, j ≠ i → w'.handles j = w.handles j
  clusterStart : (w'.handles i).clusterStart = (w.handles i).clusterStart
  fileSize : (w'.handles i).fileSize = (w.handles i).fileSize
  isFree : (w'.handles i).isFree = (w.handles i).isFree
  mode : (w'.handles i).mode = (w.handles i).mode
  calls : ∃ cs, w'.calls = cs ++ w.calls

theorem Moves.refl (i : Slot) (w : World) : Moves i w w := ⟨rfl, rfl, fun _ _ => rfl, rfl, rfl, rfl, rfl, [], rfl⟩

theorem Moves.trans {i : Slot} {w w' w'' : World} (a : Moves i w w') (b : Moves i w' w'') : Moves i w w'' := by
  obtain ⟨cs, hc⟩ := a.calls
  obtain ⟨cs', hc'⟩ := b.calls
  exact ⟨b.vol.trans a.vol, b.frames.trans a.frames, fun j hj => (b.others j hj).trans (a.others j hj),
    b.clusterStart.trans a.clusterStart, b.fileSize.trans a.fileSize, b.isFree.trans a.isFree, b.mode.trans a.mode,
    cs' ++ cs, by rw [hc', hc, List.append_assoc]⟩

theorem toInt32_toInt {a : UInt32} (ha : a.toNat < 2 ^ 31) : a.toInt32.toInt = a.toNat := by
  show a.toBitVec.toInt = _
  rw [BitVec.toInt_eq_toNat_of_lt (by show 2 * a.toNat < _; omega)]; rfl

theorem min_toNat {a b : UInt32} (ha : a.toNat < 2 ^ 31) (hb : b.toNat < 2 ^ 31) :
    (min a b).toNat = Min.min a.toNat b.toNat := by
  have hlt : a.toInt32 < b.toInt32 ↔ a.toNat < b.toNat := by
    rw [Int32.lt_iff_toInt_lt, toInt32_toInt ha, toInt32_toInt hb]; omega
  unfold min
  by_cases h : a.toInt32 < b.toInt32
  · rw [if_pos h]
    have := hlt.mp h; omega
  · rw [if_neg h]
    have : ¬ a.toNat < b.toNat := fun hc => h (hlt.mpr hc)
    omega

/-! ## Positions in a cluster -/

section
variable {v : VolumeInfo} {env : Env} {cs : List UInt32}

theorem mod_bpc_mod (v : VolumeInfo) (p : Nat) : p % v.bpc % 512 = p % 512 :=
  Nat.mod_mod_of_dvd p (Nat.dvd_mul_left 512 _)

theorem add_in_cluster (hb : 0 < v.bpc) {p q : Nat} (hq : p % v.bpc + q < v.bpc) :
    (p + q) / v.bpc = p / v.bpc ∧ (p + q) % v.bpc = p % v.bpc + q := by
  have hdm := Nat.div_add_mod p v.bpc
  have e : p + q = p % v.bpc + q + v.bpc * (p / v.bpc) := by omega
  rw [e, Nat.add_mul_div_left _ _ hb, Nat.add_mul_mod_self_left, Nat.div_eq_of_lt hq, Nat.mod_eq_of_lt hq]
  exact ⟨by omega, rfl⟩

/-- Inside one sector the cluster does not change. -/
theorem add_in_sector (hb : 0 < v.bpc) {p q : Nat} (hq : p % 512 + q < 512) :
    (p + q) / v.bpc = p / v.bpc ∧ (p + q) % v.bpc = p % v.bpc + q := by
  have hlt : p % v.bpc < v.bpc := Nat.mod_lt _ hb
  have h512 := mod_bpc_mod v p
  -- the offset in the cluster is short of a multiple of 512 by more than `q`
  have hroom : p % v.bpc + q < v.bpc := by
    have hd : v.bpc = v.sectorsPerCluster.toNat * 512 := rfl
    omega
  exact add_in_cluster hb hroom

theorem chainByte_add (hb : 0 < v.bpc) {p q : Nat} {c : UInt32} (hc : cs[p / v.bpc]? = some c)
    (hq : p % 512 + q < 512) : chainByte env v cs (p + q) =
      env.block (v.dataStartLba + UInt32.ofNat ((c.toNat - 2) * v.sectorsPerCluster.toNat + p % v.bpc / 512))
        (p % 512 + q) := by
  obtain ⟨h1, h2⟩ := add_in_sector hb hq
  have h512 := mod_bpc_mod v p
  have hd : (p % v.bpc + q) / 512 = p % v.bpc / 512 := by omega
  have hm : (p % v.bpc + q) % 512 = p % 512 + q := by omega
  rw [chainByte, h1, h2, List.getD_eq_getElem?_getD, hc]
  simp only [Option.getD_some, clusterByte, hd, hm]

/-- The address that the code computes for a sector of a cluster. -/
theorem fatClusterToLba_add {c : UInt32} (hc : v.InRange c) (s : UInt32) :
    fatClusterToLba v c + s =
      v.dataStartLba + UInt32.ofNat ((c.toNat - 2) * v.sectorsPerCluster.toNat + s.toNat) := by
  have h2 : (2 : UInt32) ≤ c := UInt32.le_iff_toNat_le.mpr hc.1
  have hn : ¬ c < 2 := by
    rw [UInt32.lt_iff_toNat_lt]; show ¬ c.toNat < 2; have := hc.1; omega
  have hs : (c - 2).toNat = c.toNat - 2 := UInt32.toNat_sub_of_le _ _ h2
  have e : (c - 2) * v.sectorsPerCluster.toUInt32 + s =
      UInt32.ofNat ((c.toNat - 2) * v.sectorsPerCluster.toNat + s.toNat) := by
    apply UInt32.toNat_inj.mp
    rw [UInt32.toNat_add, UInt32.toNat_mul, hs, UInt8.toNat_toUInt32, UInt32.toNat_ofNat']
    omega
  rw [fatClusterToLba, if_neg hn, UInt32.add_assoc, e]

end

/-! ## One turn -/

/-- The buffer once bytes `[p, p + n)` of the chain are in it at `dst`. -/
def Delivered (env : Env) (v : VolumeInfo) (cs : List UInt32) (p dst n : Nat) (buf buf' : Buf) : Prop :=
  ∀ q, buf' q = if dst ≤ q ∧ q < dst + n then chainByte env v cs (p + (q - dst)) else buf q

section
variable {env : Env} {cs : List UInt32} {i : Slot} {w : World}

/-- The sector that the cursor of a handle is in. -/
def FileHandle.lba (h : FileHandle) (v : VolumeInfo) : UInt32 := fatClusterToLba v h.currentCluster + h.currentOffset / 512

/-- The bytes that a turn copies, with `left` to go. -/
def FileHandle.chunk (h : FileHandle) (left : UInt32) : UInt32 := min left (512 - h.currentOffset % 512)

def FileHandle.advance (h : FileHandle) (n : UInt32) : FileHandle :=
  { h with currentFilePos := h.currentFilePos + n, currentOffset := h.currentOffset + n }

def World.setHandle (w : World) (i : Slot) (h : FileHandle) : World :=
  { w with handles := fun j => if j = i then h else w.handles j }

/-- A data read of `n` bytes, and the cursor behind them. -/
def World.advanced (w : World) (i : Slot) (call : SdCall) (n : UInt32) : World :=
  { w with calls := call :: w.calls, handles := fun j => if j = i then (w.handles i).advance n else w.handles j }

/-- The lookup behind a data read that came to the end of its cluster, and the cursor at the
    start of cluster `d`. -/
def World.linked (w : World) (i : Slot) (call : SdCall) (n d : UInt32) : World :=
  { w.advanced i call n with calls := fatRead w.vol (w.handles i).currentCluster :: call :: w.calls }.setHandle i
    { (w.handles i).advance n with currentCluster := d, currentOffset := 0 }

/-- One turn of the loop, on 512-byte sectors. -/
theorem readLoop_turn (hs : w.vol.bytesPerSector = 512) {actual total : UInt32} (hlt : total < actual) (buf : Buf)
    (fuel : Nat) : readLoop env i actual (fuel + 1) total buf w =
      let h := w.handles i
      let n := h.chunk (actual - total)
      (sdReadPartialBlock env (h.lba w.vol) (h.currentOffset % 512) buf total.toNat n w).bind fun r =>
        if r.1.1 = false then .ok ((.readFail, r.1.2), r.2)
        else if w.vol.bytesPerCluster ≤ h.currentOffset + n then
          (getNextCluster env h.currentCluster (r.2.setHandle i (h.advance n))).bind fun r' =>
            if r'.1.1 = .endOfChain then .ok ((.success, r.1.2), r'.2)
            else if r'.1.1 ≠ .success then .ok ((r'.1.1, r.1.2), r'.2)
            else readLoop env i actual fuel (total + n) r.1.2
              (r'.2.setHandle i { h.advance n with currentCluster := r'.1.2, currentOffset := 0 })
        else readLoop env i actual fuel (total + n) r.1.2 (r.2.setHandle i (h.advance n)) := by
  have hs' : w.vol.bytesPerSector.toUInt32 = 512 := by rw [hs]; rfl
  have hs0 : ¬ w.vol.bytesPerSector = 0 := by rw [hs]; decide
  simp only [readLoop, bind_apply, get_apply, ok_bind, hlt, if_true, hs0, if_false, hs']
  refine congrArg (Except.bind _) (funext fun ⟨⟨ok, buf1⟩, w1⟩ => ?_)
  cases ok with
  | false => rfl
  | true =>
    simp only [Bool.not_true, Bool.false_eq_true, if_false, bind_apply, setHandle_apply, ok_bind]
    by_cases hge : w.vol.bytesPerCluster ≤ (w.handles i).currentOffset + (w.handles i).chunk (actual - total)
    · have hge' := hge
      unfold FileHandle.chunk at hge'
      rw [if_pos hge, if_pos hge', bind_apply]
      refine congrArg (Except.bind _) (funext fun ⟨⟨res, next⟩, w2⟩ => ?_)
      by_cases he : res = .endOfChain
      · simp [he]
      · by_cases hn0 : res = .success
        · simp [hn0, World.setHandle, FileHandle.advance, FileHandle.chunk]
        · simp [he, hn0]
    · have hge' := hge
      unfold FileHandle.chunk at hge'
      rw [if_neg hge, if_neg hge']
      rfl

/-- The data read of a turn and the step of the cursor behind it. -/
theorem readLoop_data (hv : w.vol.WellFormed) (hch : Chain env w.vol cs) (hat : At w.vol cs (w.handles i))
    {actual total : UInt32} (buf : Buf) (fuel : Nat) (hlt : total.toNat < actual.toNat)
    (hp : (w.handles i).currentFilePos.toNat + (actual.toNat - total.toNat) < 2 ^ 31) :
    let call := SdCall.readPartialBlock ((w.handles i).lba w.vol) ((w.handles i).currentOffset % 512)
    ∃ (n : UInt32) (buf' : Buf),
      n.toNat = Min.min (actual.toNat - total.toNat) (512 - (w.handles i).currentFilePos.toNat % 512) ∧
      Delivered env w.vol cs (w.handles i).currentFilePos.toNat total.toNat n.toNat buf buf' ∧
      readLoop env i actual (fuel + 1) total buf w =
        if env.fails w.calls.length then
          .ok ((.readFail, blit buf total.toNat n.toNat fun q => env.junk w.calls.length q (buf (total.toNat + q))),
            { w with calls := call n :: w.calls })
        else if w.vol.bytesPerCluster ≤ (w.handles i).currentOffset + n then
          (getNextCluster env (w.handles i).currentCluster (w.advanced i (call n) n)).bind fun r =>
            if r.1.1 = .endOfChain then .ok ((.success, buf'), r.2)
            else if r.1.1 ≠ .success then .ok ((r.1.1, buf'), r.2)
            else readLoop env i actual fuel (total + n) buf'
              (r.2.setHandle i { (w.handles i).advance n with currentCluster := r.1.2, currentOffset := 0 })
        else readLoop env i actual fuel (total + n) buf' (w.advanced i (call n) n) := by
  intro call
  let p := (w.handles i).currentFilePos.toNat
  let off := (w.handles i).currentOffset
  let c := (w.handles i).currentCluster
  have hb := hv.bpc_pos
  have hoff : off.toNat = p % w.vol.bpc := hat.offset
  have hr : w.vol.InRange c := hch.inRange hat.cluster
  have hsec : (off / 512).toNat = p % w.vol.bpc / 512 := by rw [UInt32.toNat_div, hoff]; rfl
  have hbyte : (off % 512).toNat = p % 512 := by
    rw [UInt32.toNat_mod, hoff]; exact mod_bpc_mod w.vol p
  have hleft : (512 - off % 512).toNat = 512 - p % 512 := by
    have hle : off % 512 ≤ 512 := by
      rw [UInt32.le_iff_toNat_le, hbyte]; show p % 512 ≤ 512; omega
    rw [UInt32.toNat_sub_of_le _ _ hle, hbyte]; rfl
  have hrest : (actual - total).toNat = actual.toNat - total.toNat :=
    UInt32.toNat_sub_of_le _ _ (UInt32.le_iff_toNat_le.mpr (by omega))
  let n := min (actual - total) (512 - off % 512)
  have hn : n.toNat = Min.min (actual.toNat - total.toNat) (512 - p % 512) := by
    rw [← hrest, ← hleft]
    exact min_toNat (by omega) (by omega)
  have hn16 : n.toUInt16.toNat = n.toNat := by
    rw [UInt32.toNat_toUInt16]; omega
  have ho16 : (off % 512).toUInt16.toNat = p % 512 := by
    rw [UInt32.toNat_toUInt16, hbyte]; omega
  let lba := fatClusterToLba w.vol c + off / 512
  have hlba : lba = w.vol.dataStartLba + UInt32.ofNat ((c.toNat - 2) * w.vol.sectorsPerCluster.toNat + p % w.vol.bpc / 512) := by
    show fatClusterToLba w.vol c + off / 512 = _
    rw [fatClusterToLba_add hr, hsec]
  have hltU : total < actual := UInt32.lt_iff_toNat_lt.mpr hlt
  refine ⟨n, blit buf total.toNat n.toNat fun q => env.block lba (p % 512 + q), hn, ?_, ?_⟩
  · intro q
    unfold blit
    split
    · rename_i hq
      rw [hlba]
      exact (chainByte_add hb hat.cluster (by show p % 512 + _ < 512; omega)).symm
    · rfl
  · have hread : sdReadPartialBlock env lba (off % 512) buf total.toNat n w =
        sdRead env (.readPartialBlock lba (off % 512) n) buf total.toNat n.toNat
          (fun q => env.block lba (p % 512 + q)) w := by
      simp only [sdReadPartialBlock, hn16, ho16]
    rw [readLoop_turn hv.sector hltU]
    show ((sdReadPartialBlock env lba (off % 512) buf total.toNat n w).bind _) = _
    rw [hread]
    by_cases hf : env.fails w.calls.length = true
    · rw [sdRead_fail hf, if_pos hf]; rfl
    · rw [sdRead_ok (by simpa using hf), if_neg hf]; rfl

end

/-! ## Where the lookups of a read come -/

/-- The number of the SD command that looks up the cluster behind byte `j * bpc`, in a read
    that starts at byte `p` with command `base`: the data reads and the lookups before it. -/
def lookupAt (v : VolumeInfo) (base p j : Nat) : Nat :=
  base + (j * v.sectorsPerCluster.toNat - p / 512) + (j - 1 - p / v.bpc)

section
variable {v : VolumeInfo} {p n j : Nat}

theorem mul_bpc (v : VolumeInfo) (j : Nat) : j * v.bpc = j * v.sectorsPerCluster.toNat * 512 :=
  (Nat.mul_assoc j _ 512).symm

/-- Past the end of a sector inside the cluster. -/
theorem lookupAt_sector (hb : 0 < v.bpc) (base : Nat) (hn : p % 512 + n = 512) (hc : p % v.bpc + n < v.bpc)
    (hj : p + n < j * v.bpc) : lookupAt v (base + 1) (p + n) j = lookupAt v base p j := by
  have hq := (add_in_cluster hb hc).1
  rw [mul_bpc] at hj
  unfold lookupAt
  rw [hq]
  omega

/-- The end of a cluster. -/
theorem cluster_end (hb : 0 < v.bpc) (hn : p % 512 + n ≤ 512) (hc : v.bpc ≤ p % v.bpc + n) :
    p + n = (p / v.bpc + 1) * v.bpc := by
  have hlt : p % v.bpc < v.bpc := Nat.mod_lt _ hb
  have h512 := mod_bpc_mod v p
  have hdm := Nat.div_add_mod p v.bpc
  have hd : v.bpc = v.sectorsPerCluster.toNat * 512 := rfl
  have heq : p % v.bpc + n = v.bpc := by omega
  rw [Nat.add_mul, Nat.one_mul, Nat.mul_comm]
  omega

theorem lookupAt_here (hn : n ≤ 512) (hn0 : 0 < n) (he : p + n = (p / v.bpc + 1) * v.bpc) (base : Nat) :
    lookupAt v base p (p / v.bpc + 1) = base + 1 := by
  rw [mul_bpc] at he
  unfold lookupAt
  omega

theorem lookupAt_cluster (hb : 0 < v.bpc) (base : Nat) (hn : n ≤ 512) (hn0 : 0 < n) (he : p + n = (p / v.bpc + 1) * v.bpc)
    (hj : p + n < j * v.bpc) : lookupAt v (base + 2) (p + n) j = lookupAt v base p j := by
  have hq : (p + n) / v.bpc = p / v.bpc + 1 := by rw [he, Nat.mul_div_cancel _ hb]
  have hlt : p / v.bpc + 1 < j := by
    rw [he] at hj
    exact Nat.lt_of_mul_lt_mul_right hj
  rw [mul_bpc] at he hj
  unfold lookupAt
  rw [hq]
  omega

end

/-! ## The run of the loop -/

/-- How a read of `left` bytes at byte `p` ends, from command `base` on: the result, the
    bytes by which the position advanced, and the handle. -/
inductive ReadOutcome (env : Env) (v : VolumeInfo) (cs : List UInt32) (base p left : Nat) :
    FatError → Nat → FileHandle → Prop
  | all {h : FileHandle} : At v cs h ∨ p + left = cs.length * v.bpc → ReadOutcome env v cs base p left .success left h
  | stopped {m : Nat} {h : FileHandle} : (∃ k, base ≤ k ∧ env.fails k = true) → m ≤ left →
      At v cs h ∨ p + m = cs.length * v.bpc → ReadOutcome env v cs base p left .readFail m h
  | between {m j : Nat} {h : FileHandle} : p < j * v.bpc → j < cs.length → p + m = j * v.bpc → m ≤ left →
      env.fails (lookupAt v base p j) = true → (∀ k, base ≤ k → k < lookupAt v base p j → env.fails k = false) →
      ReadOutcome env v cs base p left .readFail m h

/-- A read that goes on from byte `p + n` with command `base + d`. -/
theorem ReadOutcome.shift {env : Env} {v : VolumeInfo} {cs : List UInt32} {base p left n d : Nat} {res : FatError}
    {m : Nat} {h : FileHandle} (hn : n ≤ left)
    (hl : ∀ j, 0 < left - n → p + n < j * v.bpc → lookupAt v (base + d) (p + n) j = lookupAt v base p j)
    (hf : ∀ k, base ≤ k → k < base + d → env.fails k = false)
    (ho : ReadOutcome env v cs (base + d) (p + n) (left - n) res m h) :
    ReadOutcome env v cs base p left res (n + m) h := by
  cases ho with
  | all ha =>
    have e : n + (left - n) = left := by omega
    rw [e]
    exact .all (by rw [show p + left = p + n + (left - n) by omega]; exact ha)
  | stopped hk hm ha =>
    obtain ⟨k, hk, hfk⟩ := hk
    exact .stopped ⟨k, by omega, hfk⟩ (by omega) (by rw [show p + (n + m) = p + n + m by omega]; exact ha)
  | @between _ j _ hp hj he hm hfk hlt =>
    have hl' := hl j (by omega) hp
    rw [hl'] at hfk hlt
    refine .between (by omega) hj (by omega) (by omega) hfk fun k h1 h2 => ?_
    by_cases hk : base + d ≤ k
    · exact hlt k hk h2
    · exact hf k h1 (by omega)

theorem Delivered.append {env : Env} {v : VolumeInfo} {cs : List UInt32} {p dst n m : Nat} {b b' b'' : Buf}
    (h : Delivered env v cs p dst n b b') (h' : Delivered env v cs (p + n) (dst + n) m b' b'') :
    Delivered env v cs p dst (n + m) b b'' := by
  intro q
  rw [h' q]
  by_cases h1 : dst + n ≤ q ∧ q < dst + n + m
  · rw [if_pos h1, if_pos (by omega)]
    congr 1; omega
  · rw [if_neg h1, h q]
    by_cases h2 : dst ≤ q ∧ q < dst + n
    · rw [if_pos h2, if_pos (by omega)]
    · rw [if_neg h2, if_neg (by omega)]

/-- The cursor stands at its position on the chain, which holds the `left` bytes behind it. -/
structure Stands (env : Env) (cs : List UInt32) (i : Slot) (w : World) (left : Nat) : Prop where
  volume : w.vol.WellFormed
  chain : Chain env w.vol cs
  cursor : At w.vol cs (w.handles i)
  small : (w.handles i).currentFilePos.toNat + left < 2 ^ 31
  room : (w.handles i).currentFilePos.toNat + left ≤ cs.length * w.vol.bpc

/-- What a read of `left` bytes to `buf + dst` comes to. -/
def Ends (env : Env) (cs : List UInt32) (i : Slot) (w : World) (left dst : Nat) (buf : Buf)
    (r : Except Halt ((FatError × Buf) × World)) : Prop :=
  ∃ res m buf' w', r = .ok ((res, buf'), w') ∧ Moves i w w' ∧
    (w'.handles i).currentFilePos.toNat = (w.handles i).currentFilePos.toNat + m ∧
    ReadOutcome env w.vol cs w.calls.length (w.handles i).currentFilePos.toNat left res m (w'.handles i) ∧
    (res = .success → Delivered env w.vol cs (w.handles i).currentFilePos.toNat dst left buf buf')

/-- A turn that copies `n` bytes with `d` commands and goes on. -/
structure Goes (env : Env) (cs : List UInt32) (i : Slot) (w : World) (left dst : Nat) (buf : Buf) (n d : Nat) (buf1 : Buf)
    (w1 : World) : Prop where
  le : n ≤ left
  moves : Moves i w w1
  pos : (w1.handles i).currentFilePos.toNat = (w.handles i).currentFilePos.toNat + n
  cursor : At w.vol cs (w1.handles i)
  calls : w1.calls.length = w.calls.length + d
  reads : ∀ k, w.calls.length ≤ k → k < w.calls.length + d → env.fails k = false
  lookups : ∀ j, 0 < left - n → (w.handles i).currentFilePos.toNat + n < j * w.vol.bpc →
    lookupAt w.vol (w.calls.length + d) ((w.handles i).currentFilePos.toNat + n) j =
      lookupAt w.vol w.calls.length (w.handles i).currentFilePos.toNat j
  data : Delivered env w.vol cs (w.handles i).currentFilePos.toNat dst n buf buf1

section
variable {env : Env} {cs : List UInt32} {i : Slot} {w w1 : World} {left dst n d : Nat} {buf buf1 : Buf}

/-- The code's test for the end of the cluster. -/
theorem Stands.crosses (hs : Stands env cs i w left) {n : UInt32} (hn : n.toNat ≤ 512) :
    w.vol.bytesPerCluster ≤ (w.handles i).currentOffset + n ↔
      w.vol.bpc ≤ (w.handles i).currentFilePos.toNat % w.vol.bpc + n.toNat := by
  have hbl := w.vol.bpc_le
  have hmod : (w.handles i).currentFilePos.toNat % w.vol.bpc < w.vol.bpc := Nat.mod_lt _ hs.volume.bpc_pos
  rw [UInt32.le_iff_toNat_le, UInt32.toNat_add, hs.cursor.offset, hs.volume.bytesPerCluster_toNat]
  omega

theorem Stands.goes (hs : Stands env cs i w left) (hg : Goes env cs i w left dst buf n d buf1 w1) :
    Stands env cs i w1 (left - n) := by
  have hle := hg.le
  have hsmall := hs.small
  have hroom := hs.room
  have hpos := hg.pos
  refine ⟨?_, ?_, ?_, by omega, ?_⟩
  · rw [hg.moves.vol]
    exact hs.volume
  · rw [hg.moves.vol]
    exact hs.chain
  · rw [hg.moves.vol]
    exact hg.cursor
  · rw [hg.moves.vol]
    omega

/-- A turn, and the read of what is left. -/
theorem Ends.after {r : Except Halt ((FatError × Buf) × World)} (hg : Goes env cs i w left dst buf n d buf1 w1)
    (h : Ends env cs i w1 (left - n) (dst + n) buf1 r) : Ends env cs i w left dst buf r := by
  obtain ⟨res, m, buf', w', e, hmv, hp, ho, hd⟩ := h
  have hle := hg.le
  rw [hg.pos, hg.moves.vol] at ho hd
  rw [hg.calls] at ho
  refine ⟨res, n + m, buf', w', e, hg.moves.trans hmv, by rw [hp, hg.pos]; omega, ?_, fun hr => ?_⟩
  · exact ho.shift hle hg.lookups hg.reads
  · have hall := hg.data.append (hd hr)
    rwa [show n + (left - n) = left by omega] at hall

end

/-! ## The turns of the loop -/

section
variable {env : Env} {cs : List UInt32} {i : Slot} {w : World} {left dst : Nat} {buf buf1 : Buf} {n : UInt32}
  (hs : Stands env cs i w left) (hn : n.toNat = Min.min left (512 - (w.handles i).currentFilePos.toNat % 512))
  (hdel : Delivered env w.vol cs (w.handles i).currentFilePos.toNat dst n.toNat buf buf1)
  (hok : env.fails w.calls.length = false) (call : SdCall)
include hs hn hdel hok

omit hdel hok in
theorem advanced_pos : ((w.advanced i call n).handles i).currentFilePos.toNat = (w.handles i).currentFilePos.toNat + n.toNat := by
  have hsmall := hs.small
  simp only [World.advanced, FileHandle.advance, if_true]
  rw [UInt32.toNat_add]
  omega

omit hs hn hdel hok in
/-- What a turn has changed once its data read succeeded: position, offset and calls. -/
theorem advanced_moves : Moves i w (w.advanced i call n) := by
  refine ⟨rfl, rfl, fun j hj => ?_, ?_, ?_, ?_, ?_, [call], rfl⟩
  · simp [World.advanced, hj]
  all_goals simp [World.advanced, FileHandle.advance]

/-- A turn that stays in its cluster. -/
theorem advanced_goes (hin : (w.handles i).currentFilePos.toNat % w.vol.bpc + n.toNat < w.vol.bpc) :
    Goes env cs i w left dst buf n.toNat 1 buf1 (w.advanced i call n) := by
  have hb := hs.volume.bpc_pos
  have hbl := w.vol.bpc_le
  have hpos := advanced_pos hs hn call
  have hoff := hs.cursor.offset
  obtain ⟨hq, hr⟩ := add_in_cluster hb hin
  refine ⟨by omega, advanced_moves call, hpos, ⟨?_, ?_⟩, rfl, fun k h1 h2 => ?_, fun j h0 hj => ?_, hdel⟩
  · rw [hpos, hr]
    simp only [World.advanced, FileHandle.advance, if_true]
    rw [UInt32.toNat_add, hoff]
    omega
  · rw [hpos, hq]
    simpa [World.advanced, FileHandle.advance] using hs.cursor.cluster
  · rw [show k = w.calls.length by omega]
    exact hok
  · exact lookupAt_sector hb _ (by omega) hin hj

/-- A turn that goes on in the next cluster. -/
theorem advanced_next (hn0 : 0 < n.toNat)
    (hend : (w.handles i).currentFilePos.toNat + n.toNat =
      ((w.handles i).currentFilePos.toNat / w.vol.bpc + 1) * w.vol.bpc)
    (hfat : env.fails (w.calls.length + 1) = false) {d : UInt32}
    (hd : cs[(w.handles i).currentFilePos.toNat / w.vol.bpc + 1]? = some d) :
    Goes env cs i w left dst buf n.toNat 2 buf1 (w.linked i call n d) := by
  have hb := hs.volume.bpc_pos
  have hpos : ((w.linked i call n d).handles i).currentFilePos.toNat = (w.handles i).currentFilePos.toNat + n.toNat := by
    rw [← advanced_pos hs hn call]
    simp [World.linked, World.setHandle, World.advanced]
  have hmoves : Moves i (w.advanced i call n) (w.linked i call n d) := by
    refine ⟨rfl, rfl, fun j hj => ?_, ?_, ?_, ?_, ?_, [fatRead w.vol _], rfl⟩
    · simp [World.linked, World.setHandle, hj]
    all_goals simp [World.linked, World.setHandle, World.advanced]
  refine ⟨by omega, (advanced_moves call).trans hmoves, hpos, ⟨?_, ?_⟩, rfl, fun k h1 h2 => ?_, fun j _ hj => ?_, hdel⟩
  · rw [hpos, hend, Nat.mul_mod_left]
    simp [World.linked, World.setHandle]
  · rw [hpos, hend, Nat.mul_div_cancel _ hb, hd]
    simp [World.linked, World.setHandle]
  · by_cases hk0 : k = w.calls.length
    · rw [hk0]
      exact hok
    · rw [show k = w.calls.length + 1 by omega]
      exact hfat
  · exact lookupAt_cluster hb _ (by omega) hn0 hend hj

/-- A turn that comes to the end of its cluster: the lookup fails, the chain ends where the
    request does, or the turn goes on in the next cluster. -/
theorem advanced_link (hn0 : 0 < n.toNat) (hout : w.vol.bpc ≤ (w.handles i).currentFilePos.toNat % w.vol.bpc + n.toNat)
    (rest : World → Except Halt ((FatError × Buf) × World)) :
    let r := (getNextCluster env (w.handles i).currentCluster (w.advanced i call n)).bind fun r =>
      if r.1.1 = .endOfChain then .ok ((.success, buf1), r.2)
      else if r.1.1 ≠ .success then .ok ((r.1.1, buf1), r.2)
      else rest (r.2.setHandle i { (w.handles i).advance n with currentCluster := r.1.2, currentOffset := 0 })
    Ends env cs i w left dst buf r ∨ ∃ w1, r = rest w1 ∧ Goes env cs i w left dst buf n.toNat 2 buf1 w1 := by
  intro r
  have hb := hs.volume.bpc_pos
  have hpos := advanced_pos hs hn call
  have hcl := hs.cursor.cluster
  let p := (w.handles i).currentFilePos.toNat
  have hroom : p + left ≤ cs.length * w.vol.bpc := hs.room
  have hk : p / w.vol.bpc < cs.length := (List.getElem?_eq_some_iff.mp hcl).1
  have hend : p + n.toNat = (p / w.vol.bpc + 1) * w.vol.bpc := cluster_end hb (by omega) hout
  let w2 : World := { w.advanced i call n with calls := fatRead w.vol (w.handles i).currentCluster :: call :: w.calls }
  have hmoves : Moves i w w2 := (advanced_moves call).trans ⟨rfl, rfl, fun _ _ => rfl, rfl, rfl, rfl, rfl, [fatRead w.vol _], rfl⟩
  have hnext := getNextCluster_chain (w := w.advanced i call n) hs.volume hs.chain hcl
  have hcalls : (w.advanced i call n).calls.length = w.calls.length + 1 := rfl
  rw [hcalls] at hnext
  dsimp only [r]
  rw [hnext, ok_bind]
  by_cases hfat : env.fails (w.calls.length + 1) = true
  · -- the lookup fails
    left
    rw [if_pos hfat]
    refine ⟨.readFail, n.toNat, buf1, w2, rfl, hmoves, hpos, ?_, fun h => by cases h⟩
    by_cases hlast : p / w.vol.bpc + 1 = cs.length
    · exact .stopped ⟨_, Nat.le_succ _, hfat⟩ (by omega) (Or.inr (by rw [← hlast]; exact hend))
    · have hhere := lookupAt_here (by omega) hn0 hend w.calls.length
      refine .between (j := p / w.vol.bpc + 1) (by omega) (by omega) hend (by omega) (by rw [hhere]; exact hfat) fun k h1 h2 => ?_
      rw [hhere] at h2
      rw [show k = w.calls.length by omega]
      exact hok
  rw [if_neg hfat]
  cases hd : cs[p / w.vol.bpc + 1]? with
  | none =>
    -- the last cluster: the file ends here
    left
    have hlen := List.getElem?_eq_none_iff.mp hd
    rw [show p / w.vol.bpc + 1 = cs.length by omega] at hend
    have hall : n.toNat = left := by omega
    rw [← hall]
    exact ⟨.success, n.toNat, buf1, w2, rfl, hmoves, hpos, .all (Or.inr hend), fun _ => hdel⟩
  | some d =>
    exact Or.inr ⟨_, rfl, advanced_next hs hn hdel hok call hn0 hend (by simpa using hfat) hd⟩

end

theorem readLoop_spec {env : Env} {cs : List UInt32} {i : Slot} (actual : UInt32) (fuel : Nat) :
    ∀ (w : World) (total : UInt32) (buf : Buf), Stands env cs i w (actual.toNat - total.toNat) → total.toNat ≤ actual.toNat →
    actual.toNat - total.toNat < fuel →
    Ends env cs i w (actual.toNat - total.toNat) total.toNat buf (readLoop env i actual fuel total buf w) := by
  induction fuel with
  | zero => intro w total buf _ _ hf; omega
  | succ fuel ih =>
    intro w total buf hs hle hf
    have hactual := actual.toNat_lt
    by_cases hlt : total.toNat < actual.toNat
    · obtain ⟨n, buf1, hn, hdel, e⟩ := readLoop_data hs.volume hs.chain hs.cursor buf fuel hlt hs.small
      have hn0 : 0 < n.toNat := by omega
      have htot : (total + n).toNat = total.toNat + n.toNat := by
        rw [UInt32.toNat_add]
        omega
      -- the rest of the request, behind a turn that goes on
      have next : ∀ {d w1}, Goes env cs i w (actual.toNat - total.toNat) total.toNat buf n.toNat d buf1 w1 →
          Ends env cs i w (actual.toNat - total.toNat) total.toNat buf (readLoop env i actual fuel (total + n) buf1 w1) := by
        intro d w1 hg
        have hrest : actual.toNat - (total + n).toNat = actual.toNat - total.toNat - n.toNat := by omega
        have h := ih w1 (total + n) buf1 (by rw [hrest]; exact hs.goes hg) (by omega) (by omega)
        rw [hrest, htot] at h
        exact h.after hg
      rw [e]
      by_cases hfail : env.fails w.calls.length = true
      · rw [if_pos hfail]
        exact ⟨.readFail, 0, _, _, rfl, ⟨rfl, rfl, fun _ _ => rfl, rfl, rfl, rfl, rfl, [_], rfl⟩, rfl,
          .stopped ⟨_, Nat.le_refl _, hfail⟩ (Nat.zero_le _) (Or.inl hs.cursor), fun h => by cases h⟩
      have hok : env.fails w.calls.length = false := by simpa using hfail
      rw [if_neg hfail]
      have hcmp := hs.crosses (n := n) (by omega)
      by_cases hout : w.vol.bpc ≤ (w.handles i).currentFilePos.toNat % w.vol.bpc + n.toNat
      · rw [if_pos (hcmp.mpr hout)]
        rcases advanced_link hs hn hdel hok _ hn0 hout (readLoop env i actual fuel (total + n) buf1)
          with h | ⟨w1, h, hg⟩
        · exact h
        · exact (congrArg (Ends env cs i w _ _ buf) h).mpr (next hg)
      · rw [if_neg fun h => hout (hcmp.mp h)]
        exact next (advanced_goes hs hn hdel hok _ (by omega))
    · -- nothing left to read
      have h0 : actual.toNat - total.toNat = 0 := by omega
      have hltU : ¬ total < actual := by rw [UInt32.lt_iff_toNat_lt]; exact hlt
      rw [h0]
      refine ⟨.success, 0, buf, w, ?_, Moves.refl i w, rfl, .all (Or.inl hs.cursor), fun _ q => ?_⟩
      · simp [readLoop, hltU]
      · rw [if_neg (by omega)]

/-! ## fat32_read -/

/-- The clusters of a file whose directory entry gives `first`; an empty file may have none. -/
def FileChain (env : Env) (v : VolumeInfo) (first : UInt32) (cs : List UInt32) : Prop :=
  match cs with
  | [] => first = 0
  | c :: _ => c = first ∧ Chain env v cs

/-- The chain `cs` of a file holds its `size` bytes. -/
structure Holds (env : Env) (v : VolumeInfo) (first : UInt32) (size : Nat) (cs : List UInt32) : Prop where
  chain : FileChain env v first cs
  room : size ≤ cs.length * v.bpc
  small : size < 2 ^ 31

/-- A handle stands at its file position on its file's chain; at the end of the chain the
    cursor may stand anywhere. -/
structure OnFile (env : Env) (v : VolumeInfo) (h : FileHandle) (cs : List UInt32) : Prop where
  holds : Holds env v h.clusterStart h.fileSize.toNat cs
  pos : h.currentFilePos.toNat ≤ h.fileSize.toNat
  cursor : At v cs h ∨ h.currentFilePos.toNat = cs.length * v.bpc

/-- The bytes that a read of `n` bytes is for. -/
def FileHandle.wanted (h : FileHandle) (n : UInt32) : Nat :=
  Min.min n.toNat (h.fileSize.toNat - h.currentFilePos.toNat)

/-- What is left of `fat32_read` on an open handle: the clamp, and the loop. -/
theorem fat32Read_open {env : Env} {w : World} (hv : w.vol.isInitialized = true) {id : UInt32} (hi : id.toNat < 16)
    (hopen : (w.handles ⟨id.toNat, hi⟩).isFree = false) (buf : Buf) (n : UInt32) :
    let h := w.handles ⟨id.toNat, hi⟩
    let actual := min n (h.fileSize - h.currentFilePos)
    fat32Read env id (some buf) n w =
      if actual = 0 then .ok ((true, some buf), w)
      else (readLoop env ⟨id.toNat, hi⟩ actual (actual.toNat + 1) 0 buf w).bind fun r =>
        .ok ((r.1.1 == .success, some r.1.2), r.2) := by
  intro h actual
  by_cases h0 : actual = 0
  · have h0' : min n ((w.handles ⟨id.toNat, hi⟩).fileSize - (w.handles ⟨id.toNat, hi⟩).currentFilePos) = 0 := h0
    simp [fat32Read, fatReadFile, hi, hv, hopen, h0, h0']
  · rw [if_neg h0]
    have h0' : ¬ min n ((w.handles ⟨id.toNat, hi⟩).fileSize - (w.handles ⟨id.toNat, hi⟩).currentFilePos) = 0 := h0
    simp only [fat32Read, hi, dif_pos, bind_apply, get_apply, ok_bind, Option.isNone_some, Bool.false_eq_true, if_false,
      fatReadFile, hv, Bool.not_true, hopen, h0']
    cases readLoop env ⟨id.toNat, hi⟩ actual (actual.toNat + 1) 0 buf w <;> rfl

/-- A handle stands at its file position on its file's chain, whatever size the directory
    gives; at the end of the chain the cursor may stand anywhere. -/
structure OnChain (env : Env) (v : VolumeInfo) (h : FileHandle) (cs : List UInt32) : Prop where
  chain : FileChain env v h.clusterStart cs
  small : h.fileSize.toNat < 2 ^ 31
  pos : h.currentFilePos.toNat ≤ h.fileSize.toNat
  cursor : At v cs h ∨ h.currentFilePos.toNat = cs.length * v.bpc

theorem OnFile.onChain {env : Env} {v : VolumeInfo} {h : FileHandle} {cs : List UInt32} (ho : OnFile env v h cs) :
    OnChain env v h cs :=
  ⟨ho.holds.chain, ho.holds.small, ho.pos, ho.cursor⟩

section
variable {env : Env} {v : VolumeInfo} {h : FileHandle} {cs : List UInt32}

/-- The bytes asked for once the request is clamped. -/
theorem OnChain.clamp (ho : OnChain env v h cs) {n : UInt32} (hn : n.toNat < 2 ^ 31) :
    (min n (h.fileSize - h.currentFilePos)).toNat = h.wanted n := by
  have hsub : (h.fileSize - h.currentFilePos).toNat = h.fileSize.toNat - h.currentFilePos.toNat :=
    UInt32.toNat_sub_of_le _ _ (UInt32.le_iff_toNat_le.mpr ho.pos)
  have hsmall := ho.small
  have := min_toNat (a := n) (b := h.fileSize - h.currentFilePos) hn (by rw [hsub]; omega)
  rw [hsub] at this
  exact this

/-- Bytes of the file up to its size. -/
theorem OnChain.wanted_le (ho : OnChain env v h cs) (n : UInt32) : h.currentFilePos.toNat + h.wanted n ≤ h.fileSize.toNat := by
  have hw : h.wanted n ≤ h.fileSize.toNat - h.currentFilePos.toNat := Nat.min_le_right _ _
  have hpos := ho.pos
  omega

/-- A handle in front of the end of its chain stands in a cluster of it. -/
theorem OnChain.at_cluster (ho : OnChain env v h cs) (hlt : h.currentFilePos.toNat < cs.length * v.bpc) :
    Chain env v cs ∧ At v cs h := by
  refine ⟨?_, ho.cursor.resolve_right (by omega)⟩
  have hc := ho.chain
  cases cs with
  | nil => simp only [List.length_nil, Nat.zero_mul] at hlt; omega
  | cons c cs => exact hc.2

end

/-- A read of bytes that the chain has. -/
theorem fat32Read_chain {env : Env} {w : World} (hv : w.vol.WellFormed) {id n : UInt32} (hi : id.toNat < 16) (buf : Buf)
    {cs : List UInt32} (ho : OnChain env w.vol (w.handles ⟨id.toNat, hi⟩) cs)
    (hopen : (w.handles ⟨id.toNat, hi⟩).isFree = false) (hn : n.toNat < 2 ^ 31)
    (hroom : (w.handles ⟨id.toNat, hi⟩).currentFilePos.toNat + (w.handles ⟨id.toNat, hi⟩).wanted n ≤
      cs.length * w.vol.bpc) :
    let h := w.handles ⟨id.toNat, hi⟩
    ∃ res m buf' w', fat32Read env id (some buf) n w = .ok ((res == .success, some buf'), w') ∧
      Moves ⟨id.toNat, hi⟩ w w' ∧
      (w'.handles ⟨id.toNat, hi⟩).currentFilePos.toNat = h.currentFilePos.toNat + m ∧
      ReadOutcome env w.vol cs w.calls.length h.currentFilePos.toNat (h.wanted n) res m (w'.handles ⟨id.toNat, hi⟩) ∧
      (res = .success → Delivered env w.vol cs h.currentFilePos.toNat 0 (h.wanted n) buf buf') := by
  intro h
  let i : Slot := ⟨id.toNat, hi⟩
  let actual := min n (h.fileSize - h.currentFilePos)
  have ha : actual.toNat = h.wanted n := ho.clamp hn
  have hle := ho.wanted_le n
  have hsmall := ho.small
  by_cases h0 : actual = 0
  · -- nothing left
    have hw0 : h.wanted n = 0 := by rw [← ha, h0]; rfl
    refine ⟨.success, 0, buf, w, ?_, Moves.refl i w, rfl, ?_, fun _ q => ?_⟩
    · rw [fat32Read_open hv.initialized hi hopen, if_pos h0]; rfl
    · rw [hw0]
      exact .all ho.cursor
    · rw [hw0, if_neg (by omega)]
  · have hpos : 0 < h.wanted n := by
      rw [← ha]
      exact Nat.pos_of_ne_zero fun hz => h0 (UInt32.toNat_inj.mp hz)
    obtain ⟨hch, hat⟩ := ho.at_cluster (Nat.lt_of_lt_of_le (Nat.lt_add_of_pos_right hpos) hroom)
    have hz : (0 : UInt32).toNat = 0 := rfl
    have hs : Stands env cs i w (actual.toNat - (0 : UInt32).toNat) := by
      rw [hz, Nat.sub_zero, ha]
      exact ⟨hv, hch, hat, Nat.lt_of_le_of_lt hle hsmall, hroom⟩
    obtain ⟨res, m, buf', w', e, hmv, hp, hout, hd⟩ := readLoop_spec actual (actual.toNat + 1) w 0 buf hs (Nat.zero_le _)
      (by rw [hz]; omega)
    rw [hz, Nat.sub_zero, ha] at hout hd
    refine ⟨res, m, buf', w', ?_, hmv, hp, hout, hd⟩
    rw [fat32Read_open hv.initialized hi hopen, if_neg h0,
      show readLoop env ⟨id.toNat, hi⟩ (min n ((w.handles ⟨id.toNat, hi⟩).fileSize -
        (w.handles ⟨id.toNat, hi⟩).currentFilePos)) _ 0 buf w = _ from e]
    rfl

theorem fat32Read_spec {env : Env} {w : World} (hv : w.vol.WellFormed) {id n : UInt32} (hi : id.toNat < 16) (buf : Buf)
    {cs : List UInt32} (ho : OnFile env w.vol (w.handles ⟨id.toNat, hi⟩) cs)
    (hopen : (w.handles ⟨id.toNat, hi⟩).isFree = false) (hn : n.toNat < 2 ^ 31) :
    let h := w.handles ⟨id.toNat, hi⟩
    ∃ res m buf' w', fat32Read env id (some buf) n w = .ok ((res == .success, some buf'), w') ∧
      Moves ⟨id.toNat, hi⟩ w w' ∧
      (w'.handles ⟨id.toNat, hi⟩).currentFilePos.toNat = h.currentFilePos.toNat + m ∧
      ReadOutcome env w.vol cs w.calls.length h.currentFilePos.toNat (h.wanted n) res m (w'.handles ⟨id.toNat, hi⟩) ∧
      (res = .success → Delivered env w.vol cs h.currentFilePos.toNat 0 (h.wanted n) buf buf') :=
  fat32Read_chain hv hi buf ho.onChain hopen hn (Nat.le_trans (ho.onChain.wanted_le n) ho.holds.room)

end OpenGpos.Fat
