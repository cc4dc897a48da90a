/-
  OpenGpos.Fat.Confine — the blocks that the driver reads. Neither reader of a cluster checks
  its number: `fatClusterToLba` makes block 0 of clusters 0 and 1, and blocks behind the
  partition of large ones. Where the clusters that a call gets to are in range, all its
  blocks lie in the mounted partition (`step_confined`). Which clusters these are is read off the
  card, call by call: a directory that nobody enters may be anywhere.
-/
import OpenGpos.Fat.Parent
import OpenGpos.Fat.Trail
import OpenGpos.Fat.Walk

namespace OpenGpos.Fat

open OpenGpos.Lib.Fuel OpenGpos.Lib.Hoare OpenGpos.Lib.Runs

/-- The read is of a block of the mounted partition. -/
def VolumeInfo.Covers (v : VolumeInfo) (c : SdCall) : Prop :=
  v.volumeStartLba.toNat ≤ c.lba.toNat ∧ c.lba.toNat < v.volumeStartLba.toNat + v.totalSectors.toNat

/-- A mounted volume of 512-byte sectors whose FAT and data regions fit in the partition. -/
structure VolumeInfo.Fits (v : VolumeInfo) : Prop extends v.Readable where
  size : v.bytesPerSector = 512
  partition : v.volumeStartLba.toNat + v.totalSectors.toNat ≤ 2 ^ 32
  fat : v.firstFatLba = v.volumeStartLba + v.reservedSectorCount.toUInt32
  data : v.dataStartLba = v.firstFatLba + v.numFats.toUInt32 * v.fatSizeSectors
  clusters : v.reservedSectorCount.toNat + v.numFats.toNat * v.fatSizeSectors.toNat +
    v.totalClusters.toNat * v.sectorsPerCluster.toNat ≤ v.totalSectors.toNat

/-- The regions a mount lays out. -/
theorem mounted_fits {env : Env} {w0 w : World} (h : fat32Init env w0 = .ok (true, w)) (hs : w.vol.bytesPerSector = 512)
    (hc : w.vol.sectorsPerCluster ≠ 0) (hp : w.vol.volumeStartLba.toNat + w.vol.totalSectors.toNat ≤ 2 ^ 32)
    (hm : w.vol.reservedSectorCount.toNat + w.vol.numFats.toNat * w.vol.fatSizeSectors.toNat ≤ w.vol.totalSectors.toNat) :
    w.vol.Fits := by
  rcases fat32Init_cases env w0 with ⟨-, w', e⟩ | ⟨i, -, -, -, e⟩
  · rw [e] at h; cases h
  split at e
  · rw [e] at h; cases h
  obtain ⟨cs, e⟩ := e
  rw [e] at h
  cases h
  have hent : (512 : UInt16).toNat / 32 ≤ 16 := by decide
  refine ⟨⟨⟨rfl, ?_, hc⟩, ?_⟩, hs, hp, rfl, rfl, bpbVolume_clusters _ _ hm⟩
  · rw [hs]; decide
  · rw [hs]; exact hent

section
variable {env : Env} {v : VolumeInfo}

/-- A sector of a cluster in range is a block of the partition. -/
theorem VolumeInfo.Fits.covers_sector (hv : v.Fits) {c : UInt32} (hc : v.InRange c) {s : UInt32}
    (hs : s.toNat < v.sectorsPerCluster.toNat) {call : SdCall} (hcall : call.lba = fatClusterToLba v c + s) :
    v.Covers call := by
  obtain ⟨h2, hlt⟩ := hc
  have hcl := hv.clusters
  have hp := hv.partition
  have hmul : (c.toNat - 2 + 1) * v.sectorsPerCluster.toNat ≤ v.totalClusters.toNat * v.sectorsPerCluster.toNat :=
    Nat.mul_le_mul_right _ (by omega)
  rw [Nat.add_mul, Nat.one_mul] at hmul
  rw [VolumeInfo.Covers, hcall, fatClusterToLba_add ⟨h2, hlt⟩, hv.data, hv.fat, UInt32.toNat_add, UInt32.toNat_add,
    UInt32.toNat_add, UInt32.toNat_mul, UInt16.toNat_toUInt32, UInt8.toNat_toUInt32, UInt32.toNat_ofNat']
  omega

/-- A lookup that gets past the range check of `getNextCluster` is a block of the partition. -/
theorem VolumeInfo.Fits.covers_fatRead (hv : v.Fits) {c : UInt32} (hc : v.Valid c) : v.Covers (fatRead v c) := by
  have hcl := hv.clusters
  have hp := hv.partition
  have hspc := hv.spc_pos
  have hrange : 2 ≤ c.toNat ∧ c.toNat < v.totalClusters.toNat + 2 := by
    simp only [VolumeInfo.Valid, not_or, UInt32.lt_iff_toNat_lt, UInt32.le_iff_toNat_le, UInt32.toNat_add] at hc
    have h2 : ¬ c.toNat < 2 := hc.1
    have hlt : ¬ (v.totalClusters.toNat + 2) % 2 ^ 32 ≤ c.toNat := hc.2
    omega
  -- 128 entries a sector: the entry's sector has a smaller number than the cluster
  have hoff : (c * 4).toNat / 512 ≤ c.toNat / 128 := by
    rw [UInt32.toNat_mul]
    show c.toNat * 4 % 2 ^ 32 / 512 ≤ _
    omega
  have hmul : v.totalClusters.toNat * 1 ≤ v.totalClusters.toNat * v.sectorsPerCluster.toNat :=
      Nat.mul_le_mul_left _ hspc
  have hlba : (fatRead v c).lba = v.firstFatLba + UInt32.ofNat ((c * 4).toNat / 512) := by
    show v.firstFatLba + UInt32.ofNat ((c * 4).toNat / v.bytesPerSector.toNat) = _
    rw [hv.size]; rfl
  rw [VolumeInfo.Covers, hlba, hv.fat, UInt32.toNat_add, UInt32.toNat_add, UInt16.toNat_toUInt32, UInt32.toNat_ofNat']
  omega

end

/-! ## One call -/

/-- The turn gets to a cluster in range, or to none. -/
def Spot.InRange (env : Env) (v : VolumeInfo) (s : Spot) : Prop :=
  match s.ahead env v with
  | some (q, _) => v.InRange q.cluster
  | none => True

instance (env : Env) (v : VolumeInfo) (s : Spot) : Decidable (s.InRange env v) :=
  match h : s.ahead env v with
  | some (q, _) => decidable_of_iff (v.InRange q.cluster) (by rw [Spot.InRange, h])
  | none => isTrue (by rw [Spot.InRange, h]; trivial)

/-- The turn reads in a cluster in range, or does not read. -/
def Reading.InRange (v : VolumeInfo) (s : Reading) : Prop :=
  s.left = 0 ∨ v.InRange s.h.currentCluster ∧ s.h.currentOffset.toNat < v.bpc

instance (v : VolumeInfo) (s : Reading) : Decidable (s.InRange v) := by unfold Reading.InRange; infer_instance

/-- The clusters that a call gets to are in range: those of the directories that `get_file` enters on its way
    along the path, as far as it follows them, and those of the bytes that a read is for. -/
def Call.InRange (env : Env) (w : World) : Call → Prop
  | .openFile path _ _ => Always (Search.next env w.vol) (fun s => s.spot.InRange env w.vol)
      (Search.start env path.tail w)
  | .read id (some _) n _ _ => ∀ hi : id.toNat < 16,
      let h := w.handles ⟨id.toNat, hi⟩
      h.isFree = false → Always (Reading.next env w.vol) (Reading.InRange w.vol)
        ⟨h, min n (h.fileSize - h.currentFilePos), w.calls.length⟩
  | _ => True

section
variable {env : Env} {v : VolumeInfo} {base : List SdCall} (hv : v.Fits)
include hv

theorem VolumeInfo.Fits.covers_spot {s : Spot} (hs : s.InRange env v) {c : SdCall} (hc : s.Makes env v c) :
    v.Covers c := by
  cases hc with
  | lookup _ hval => exact hv.covers_fatRead hval
  | @sector q n ha hq =>
    rw [Spot.InRange, ha] at hs
    refine hv.covers_sector hs (s := UInt32.ofNat q.sector) ?_ rfl
    rw [UInt32.toNat_ofNat']
    exact Nat.lt_of_le_of_lt (Nat.mod_le _ _) hq

theorem VolumeInfo.Fits.covers_reading {s : Reading} (hs : s.InRange v) {c : SdCall} (hc : s.Makes v c) :
    v.Covers c := by
  cases hc with
  | lookup _ hval => exact hv.covers_fatRead hval
  | data h0 =>
    obtain ⟨hin, hoff⟩ := hs.resolve_left h0
    have hd : v.bpc = v.sectorsPerCluster.toNat * 512 := rfl
    refine hv.covers_sector hin (s := s.h.currentOffset / 512) ?_ rfl
    rw [UInt32.toNat_div]
    show _ / 512 < _
    omega

/-- One call of the file interface. -/
theorem fileStep_covered {w w' : World} {l : Call} (hw : Asked v v.Covers base w) (hr : l.InRange env w)
    (hs : FileStep env w l w') : Asked v v.Covers base w' := by
  have hvol := hw.vol
  subst hvol
  cases hs with
  | @openFile _ fuel path mode id e =>
    rw [fat32Open_eq] at e
    cases hg : getFile env fuel path default w with
    | error _ => rw [hg] at e; cases e
    | ok a =>
      have ha : Asked w.vol w.vol.Covers base a.2 :=
        getFile_trail hv.toReadable hw (Always.mono (fun _ hs _ hc => hv.covers_spot hs hc) hr) hg
      have hres : Asked w.vol w.vol.Covers base (openResult mode a).2 := by
        unfold openResult
        split
        · exact ha
        · split
          · exact ⟨ha.vol, ha.calls⟩
          · exact ha
      rw [hg, ok_bind, Except.ok.injEq] at e
      rwa [e] at hres
  | close e =>
    rcases fat32Close_cases e with ⟨-, -, rfl⟩ | ⟨hi, -, rfl⟩
    · exact hw
    · exact ⟨hw.vol, hw.calls⟩
  | @read _ id n buffer buffer' ok e =>
    by_cases href : buffer = none ∨ ∀ hi : id.toNat < 16, (w.handles ⟨id.toNat, hi⟩).isFree = true
    · rw [fat32Read_refused env href] at e
      cases e; exact hw
    simp only [not_or, not_forall, Bool.not_eq_true] at href
    obtain ⟨hb, hi, hopen⟩ := href
    obtain ⟨buf, rfl⟩ := Option.ne_none_iff_exists'.mp hb
    let h := w.handles ⟨id.toNat, hi⟩
    let actual := min n (h.fileSize - h.currentFilePos)
    have e' : fat32Read env id (some buf) n w = if actual = 0 then .ok ((true, some buf), w)
        else (readLoop env ⟨id.toNat, hi⟩ actual (actual.toNat + 1) 0 buf w).bind fun r =>
          .ok ((r.1.1 == .success, some r.1.2), r.2) := fat32Read_open hv.initialized hi hopen buf n
    rw [e'] at e
    by_cases h0 : actual = 0
    · rw [if_pos h0] at e
      cases e; exact hw
    rw [if_neg h0] at e
    have hall : Always (Reading.next env w.vol) (Reading.InRange w.vol) ⟨h, actual, w.calls.length⟩ := hr hi hopen
    have hmade : Always (Reading.next env w.vol) (fun t => ∀ c, t.Makes w.vol c → w.vol.Covers c) _ :=
      Always.mono (fun _ hs _ hc => hv.covers_reading hs hc) hall
    cases hl : readLoop env ⟨id.toNat, hi⟩ actual (actual.toNat + 1) 0 buf w with
    | error _ => rw [hl] at e; cases e
    | ok a =>
      rw [hl] at e
      cases e
      exact readLoop_trail hv.initialized hv.size _ hw (Nat.zero_le _) (by rw [UInt32.sub_zero]; exact hmade) hl

end

/-! ## Runs with directory iterators -/

/-- The driver, with the iterators that its callers hold: each with what it reported last. -/
structure Session where
  w : World
  browse : Nat → Option (DirIter × Option FileInfo)

/-- A file call, or a call for iterator `k`: set up on the root directory, set up on the
    directory it reported last, asked for the next entry. -/
inductive Access where
  | file (l : Call)
  | rewind (k : Nat)
  | enter (k : Nat)
  | next (k : Nat) (res : FatError)

def Session.hold (s : Session) (w : World) (k : Nat) (b : Option (DirIter × Option FileInfo)) : Session :=
  ⟨w, fun j => if j = k then b else s.browse j⟩

/-- A directory is read until a call is not successful, as `get_file` does it. -/
inductive AccessStep (env : Env) : Session → Access → Session → Prop
  | file {s : Session} {l : Call} {w' : World} : FileStep env s.w l w' → AccessStep env s (.file l) ⟨w', s.browse⟩
  | rewind {s : Session} {k : Nat} {iter iter' : DirIter} {w' : World} :
      fatInitRootDirIterator iter s.w.vol.rootDirCluster s.w = .ok ((.success, iter'), w') →
      AccessStep env s (.rewind k) (s.hold w' k (some (iter', none)))
  | enter {s : Session} {k : Nat} {iter iter' : DirIter} {info : FileInfo} {w' : World} :
      s.browse k = some (iter, some info) → info.isDirectory = true →
      fatInitRootDirIterator iter info.firstCluster s.w = .ok ((.success, iter'), w') →
      AccessStep env s (.enter k) (s.hold w' k (some (iter', none)))
  | next {s : Session} {k fuel : Nat} {iter iter' : DirIter} {o : Option FileInfo} {info info' : FileInfo} {res : FatError}
      {w' : World} : s.browse k = some (iter, o) →
      fatReadNextDirEntry env fuel iter info s.w = .ok ((res, iter', info'), w') →
      AccessStep env s (.next k res) (s.hold w' k (if res = .success then some (iter', some info') else none))

/-- What a run of accesses keeps. -/
structure Confined (env : Env) (v : VolumeInfo) (base : List SdCall) (s : Session) : Prop where
  world : Asked v v.Covers base s.w
  browse : ∀ k iter o, s.browse k = some (iter, o) → IsAt env v iter iter.place

/-- The clusters that the access gets to are in range. Setting up an iterator gets to none. -/
def AccessOk (env : Env) (s : Session) : Access → Prop
  | .file l => l.InRange env s.w
  | .next k _ => ∀ iter o, s.browse k = some (iter, o) →
      Always (Spot.pass env s.w.vol) (Spot.InRange env s.w.vol) ⟨iter.place, s.w.calls.length⟩
  | _ => True

section
variable {env : Env} {v : VolumeInfo} {base : List SdCall}

theorem Confined.hold {s : Session} (h : Confined env v base s) {w : World} (hw : Asked v v.Covers base w) (k : Nat)
    {b : Option (DirIter × Option FileInfo)} (hb : ∀ iter o, b = some (iter, o) → IsAt env v iter iter.place) :
    Confined env v base (s.hold w k b) := by
  refine ⟨hw, fun j iter o hj => ?_⟩
  simp only [Session.hold] at hj
  by_cases hjk : j = k
  · rw [if_pos hjk] at hj
    exact hb iter o hj
  · rw [if_neg hjk] at hj
    exact h.browse j iter o hj

theorem step_confined (hv : v.Fits) {s t : Session} {l : Access} (h : Confined env v base s) (hok : AccessOk env s l)
    (hs : AccessStep env s l t) : Confined env v base t := by
  have fresh : ∀ {iter iter' : DirIter} {c : UInt32} {w' : World} (k : Nat),
      fatInitRootDirIterator iter c s.w = .ok ((.success, iter'), w') →
      Confined env v base (s.hold w' k (some (iter', none))) := by
    intro iter iter' c w' k e
    obtain ⟨hw, hit⟩ := fatInitRootDirIterator_fresh (P := Asked v v.Covers base) iter c s.w h.world _ _ e
    refine h.hold hw k fun it o ho => ?_
    cases ho
    rw [show iter' = freshIter c from hit rfl]
    exact .start (freshIter_fresh c)
  cases hs with
  | file hs => exact ⟨fileStep_covered hv h.world hok hs, h.browse⟩
  | rewind e => exact fresh _ e
  | enter _ _ e => exact fresh _ e
  | @next k fuel iter iter' o info info' res w' hb e =>
    have hall := hok iter o hb
    rw [h.world.vol] at hall
    obtain ⟨hw, -, hres⟩ := fatReadNextDirEntry_trail hv.toReadable (s := ⟨iter.place, s.w.calls.length⟩) h.world rfl
      (h.browse k iter o hb) (fun es t hrun c hc => hv.covers_spot (Spot.passes_always hrun hall).here hc) e
    refine h.hold hw k fun it o ho => ?_
    by_cases hsuc : res = .success
    · rw [if_pos hsuc] at ho
      cases ho
      obtain ⟨es, t, q, n, -, -, -, -, hi, -⟩ := hres hsuc
      rw [hi.place_eq]
      exact hi
    · rw [if_neg hsuc] at ho; cases ho

/-- In every run on a mounted volume whose regions fit in its partition, in which every access gets to
    clusters in range only, every SD read is of a block of the partition. -/
theorem reads_confined {w0 w : World} {ls : List Access} {s : Session} (h : fat32Init env w0 = .ok (true, w))
    (hs : w.vol.bytesPerSector = 512) (hc : w.vol.sectorsPerCluster ≠ 0)
    (hp : w.vol.volumeStartLba.toNat + w.vol.totalSectors.toNat ≤ 2 ^ 32)
    (hm : w.vol.reservedSectorCount.toNat + w.vol.numFats.toNat * w.vol.fatSizeSectors.toNat ≤ w.vol.totalSectors.toNat)
    (hr : Run (Guard (AccessOk env) (AccessStep env)) ⟨w, fun _ => none⟩ ls s) :
    ∃ cs, s.w.calls = cs ++ w.calls ∧ ∀ c ∈ cs, w.vol.volumeStartLba.toNat ≤ c.lba.toNat ∧
      c.lba.toNat < w.vol.volumeStartLba.toNat + w.vol.totalSectors.toNat := by
  have hv := mounted_fits h hs hc hp hm
  have hstep : ∀ s l t, Confined env w.vol w.calls s → Guard (AccessOk env) (AccessStep env) s l t →
      Confined env w.vol w.calls t := fun s l t hi ⟨hok, hst⟩ => step_confined hv hi hok hst
  have hinit : Confined env w.vol w.calls ⟨w, fun _ => none⟩ :=
    ⟨⟨rfl, [], rfl, fun c hc => (List.not_mem_nil hc).elim⟩, fun k iter o ho => by cases ho⟩
  exact (hr.invariant hstep hinit).world.calls

end

/-- Asking with a fresh iterator gets to what lies ahead of its directory. -/
theorem accessOk_fresh {env : Env} {v : VolumeInfo} {s : Session} {i : Nat} {c : UInt32} {k : Nat} {res : FatError}
    (n : Nat) (hv : s.w.vol = v) (hb : s.browse i = some (freshIter c, none)) (hk : s.w.calls.length = k)
    (hall : alwaysIn (Spot.pass env v) (Spot.InRange env v) n ⟨.start c, k⟩ = true) : AccessOk env s (.next i res) := by
  intro iter o hiter
  rw [hb] at hiter
  cases hiter
  rw [hv, hk]
  exact alwaysIn_sound n hall

/-- The nested card with 600 bytes in `/S/B`, on clusters 5 and 6. -/
def deepCard : Env := card (nestedBytes ++ [
  (2, 20, 6), (2, 24, 0xF8), (2, 25, 0xFF), (2, 26, 0xFF), (2, 27, 0x0F), (4, 122, 5), (4, 124, 0x58), (4, 125, 2)])

/-- `/S/B` opened and read, then the root directory asked with an iterator for `/S`, and `/S` for its first
    entry. That the `..` of `/S` is cluster 0 does no harm, as nobody enters it. -/
theorem reads_confined_deep : ∃ w b s cs, fat32Init deepCard World.boot = .ok (true, w) ∧
    entryCluster (dirEntry deepCard w.vol 3 0 1) = 0 ∧
    Run (Guard (AccessOk deepCard) (AccessStep deepCard)) ⟨w, fun _ => none⟩
      [.file (.openFile [0x2F, 0x53, 0x2F, 0x42] 0 0), .file (.read 0 (some fun _ => 0) 600 true b), .rewind 0,
        .next 0 .success, .enter 0, .next 0 .success] s ∧
    s.w.calls = cs ++ w.calls ∧ cs.length = 7 ∧ ∀ c ∈ cs, 1 ≤ c.lba.toNat ∧ c.lba.toNat < 1 + 100 := by
  let w := after (fat32Init deepCard World.boot)
  let w1 := after (fat32Open deepCard 9 [0x2F, 0x53, 0x2F, 0x42] 0 w)
  let w2 := after (fat32Read deepCard 0 (some fun _ => 0) 600 w1)
  let w3 := after (fatReadNextDirEntry deepCard 9 (freshIter 2) default w2)
  let w4 := after (fatReadNextDirEntry deepCard 9 (freshIter 3) default w3)
  have h0 : answer (fat32Init deepCard World.boot) = some true := by decide +kernel
  have hvol : w.vol = sampleVolume := by decide +kernel
  have hvol1 : w1.vol = sampleVolume := by decide +kernel
  have hvol2 : w2.vol = sampleVolume := by decide +kernel
  have hvol3 : w3.vol = sampleVolume := by decide +kernel
  have hhandle : w1.handles 0 = openHandle ⟨fun _ => 0, 5, 600, 0, false⟩ 0 := by decide +kernel
  have hcalls2 : w2.calls.length = 7 := by decide +kernel
  have hcalls3 : w3.calls.length = 8 := by decide +kernel
  have hcalls4 : w4.calls.length = 7 + w.calls.length := by decide +kernel
  -- the calls
  have h1 : answer (fat32Open deepCard 9 [0x2F, 0x53, 0x2F, 0x42] 0 w) = some 0 := by decide +kernel
  have h2 : (answer (fat32Read deepCard 0 (some fun _ => 0) 600 w1)).map (·.1) = some true := by decide +kernel
  have h3 : (answer (fatReadNextDirEntry deepCard 9 (freshIter 2) default w2)).map
      (fun x => (x.1, x.2.2.isDirectory, x.2.2.firstCluster)) = some (.success, true, 3) := by decide +kernel
  have h4 : (answer (fatReadNextDirEntry deepCard 9 (freshIter 3) default w3)).map (·.1) = some .success := by
    decide +kernel
  obtain ⟨b, h2⟩ := answer_fst h2
  obtain ⟨⟨res, iter3, info3⟩, h3, hx⟩ := Option.map_eq_some_iff.mp h3
  obtain ⟨rfl, hdir, hcl⟩ : res = .success ∧ info3.isDirectory = true ∧ info3.firstCluster = 3 := by
    simpa only [Prod.mk.injEq] using hx
  obtain ⟨⟨iter4, info4⟩, h4⟩ := answer_fst h4
  -- where they get to
  have hopen : AccessOk deepCard ⟨w, fun _ => none⟩ (.file (.openFile [0x2F, 0x53, 0x2F, 0x42] 0 0)) := by
    show Always (Search.next deepCard w.vol) _ _
    rw [hvol]
    exact alwaysIn_sound 9 (by decide +kernel)
  have hread : AccessOk deepCard ⟨w1, fun _ => none⟩ (.file (.read 0 (some fun _ => 0) 600 true b)) := by
    intro hi h _
    show Always (Reading.next deepCard w1.vol) (Reading.InRange w1.vol)
      ⟨w1.handles 0, min 600 ((w1.handles 0).fileSize - (w1.handles 0).currentFilePos), w1.calls.length⟩
    rw [hvol1, hhandle]
    exact alwaysIn_sound 4 (by decide +kernel)
  let s2 : Session := ⟨w2, fun _ => none⟩
  let s3 : Session := s2.hold w2 0 (some (freshIter 2, none))
  let s4 : Session := s3.hold w3 0 (some (iter3, some info3))
  let s5 : Session := s4.hold w3 0 (some (freshIter 3, none))
  let s6 : Session := s5.hold w4 0 (some (iter4, some info4))
  have hbegin : fatInitRootDirIterator default s2.w.vol.rootDirCluster s2.w = .ok ((.success, freshIter 2), w2) := by
    rw [show s2.w.vol = sampleVolume from hvol2]
    exact fatInitRootDirIterator_apply (by rw [hvol2]; rfl) default 2
  have hrewind : AccessStep deepCard s2 (.rewind 0) s3 := .rewind hbegin
  have hdown : fatInitRootDirIterator iter3 info3.firstCluster s4.w = .ok ((.success, freshIter 3), w3) := by
    rw [hcl]
    exact fatInitRootDirIterator_apply (show w3.vol.isInitialized = true by rw [hvol3]; rfl) iter3 3
  have henter : AccessStep deepCard s4 (.enter 0) s5 := .enter rfl hdir hdown
  have hrun : Run (Guard (AccessOk deepCard) (AccessStep deepCard)) ⟨w, fun _ => none⟩
      [.file (.openFile [0x2F, 0x53, 0x2F, 0x42] 0 0), .file (.read 0 (some fun _ => 0) 600 true b), .rewind 0,
        .next 0 .success, .enter 0, .next 0 .success] s6 :=
    .cons ⟨hopen, .file (.openFile (answer_some h1))⟩ <|
      .cons ⟨hread, .file (.read h2)⟩ <|
      .cons ⟨trivial, hrewind⟩ <|
      .cons ⟨accessOk_fresh 9 hvol2 rfl hcalls2 (by decide +kernel), .next rfl (answer_some h3)⟩ <|
      .cons ⟨trivial, henter⟩ <|
      .cons ⟨accessOk_fresh 9 hvol3 rfl hcalls3 (by decide +kernel), .next rfl h4⟩ (.nil _)
  obtain ⟨cs, hcs, hall⟩ := reads_confined (answer_some h0) (by rw [show after _ = w from rfl, hvol]; rfl)
    (by rw [show after _ = w from rfl, hvol]; decide) (by rw [show after _ = w from rfl, hvol]; decide)
    (by rw [show after _ = w from rfl, hvol]; decide) hrun
  rw [show after _ = w from rfl, hvol] at hall
  refine ⟨w, b, s6, cs, answer_some h0, by rw [hvol]; decide +kernel, hrun, hcs, ?_, hall⟩
  have hlen : w4.calls.length = cs.length + w.calls.length := (congrArg List.length hcs).trans List.length_append
  rw [hcalls4] at hlen
  omega

/-- The sample card with 0 as the first cluster of `/A`. -/
def strayCard : Env := card [
  (0, 446, 0x80), (0, 450, 0x0C), (0, 454, 1), (0, 458, 100), (0, 510, 0x55), (0, 511, 0xAA),
  (1, 0x0C, 2), (1, 0x0D, 1), (1, 0x0E, 1), (1, 0x10, 1), (1, 36, 1), (1, 44, 2),
  (2, 8, 0xF8), (2, 9, 0xFF), (2, 10, 0xFF), (2, 11, 0x0F),
  (3, 0, 0x41), (3, 1, 0x20), (3, 8, 0x20), (3, 28, 1)]

/-- Reading the one byte of `/A` reads the boot record in front of the partition. -/
theorem stray_read : ∃ w w' w'' b c, fat32Init strayCard World.boot = .ok (true, w) ∧ w.vol = sampleVolume ∧
    fat32Open strayCard 9 [0x2F, 0x41] 0 w = .ok (0, w') ∧
    fat32Read strayCard 0 (some fun _ => 0) 1 w' = .ok ((true, b), w'') ∧
    w''.calls = c :: w'.calls ∧ ¬ w.vol.Covers c := by
  let w := after (fat32Init strayCard World.boot)
  let w' := after (fat32Open strayCard 9 [0x2F, 0x41] 0 w)
  let w'' := after (fat32Read strayCard 0 (some fun _ => 0) 1 w')
  have h0 : answer (fat32Init strayCard World.boot) = some true := by decide +kernel
  have hvol : w.vol = sampleVolume := by decide +kernel
  have h1 : answer (fat32Open strayCard 9 [0x2F, 0x41] 0 w) = some 0 := by decide +kernel
  have h2 : (answer (fat32Read strayCard 0 (some fun _ => 0) 1 w')).map (·.1) = some true := by decide +kernel
  have hc : w''.calls = .readPartialBlock 0 0 1 :: w'.calls := by decide +kernel
  obtain ⟨b, h2⟩ := answer_fst h2
  refine ⟨w, w', w'', b, _, answer_some h0, hvol, answer_some h1, h2, hc, ?_⟩
  rw [hvol]
  exact fun h => absurd h.1 (by decide)

end OpenGpos.Fat
