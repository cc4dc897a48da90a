/-
  OpenGpos.Fat.Handles — runs of `fat32_open`, `fat32_read` and `fat32_close` on a card
  whose reads may fail. Every open handle stands on its file's chain (`step_onFiles`) as long
  as no read dies in the lookup between two clusters (`LookupsOk`): there the code has
  moved the position over the boundary and not the cluster.
-/
import OpenGpos.Lib.Runs
import OpenGpos.Fat.Frame
import OpenGpos.Fat.Mount
import OpenGpos.Fat.Reach
import OpenGpos.Fat.Read

namespace OpenGpos.Fat

open OpenGpos.Lib.Runs OpenGpos.Lib.Hoare

/-- A call with its answer. -/
inductive Call where
  | openFile (path : List UInt8) (mode : UInt8) (id : UInt32)
  | read (id : UInt32) (buffer : Option Buf) (n : UInt32) (ok : Bool) (buffer' : Option Buf)
  | close (id : UInt32) (ok : Bool)

/-- A call that returns. -/
inductive FileStep (env : Env) : World → Call → World → Prop
  | openFile {w w' : World} {fuel : Nat} {path : List UInt8} {mode : UInt8} {id : UInt32} :
      fat32Open env fuel path mode w = .ok (id, w') → FileStep env w (.openFile path mode id) w'
  | read {w w' : World} {id n : UInt32} {buffer buffer' : Option Buf} {ok : Bool} :
      fat32Read env id buffer n w = .ok ((ok, buffer'), w') → FileStep env w (.read id buffer n ok buffer') w'
  | close {w w' : World} {id : UInt32} {ok : Bool} :
      fat32Close id w = .ok (ok, w') → FileStep env w (.close id ok) w'

/-- Requests below 2^31 bytes. -/
def Call.Small : Call → Prop
  | .read _ _ n _ _ => n.toNat < 2 ^ 31
  | _ => True

/-- `path` can be resolved to `file` on the volume `v`. -/
def Found (env : Env) (v : VolumeInfo) (path : List UInt8) (file : FileInfo) : Prop :=
  ∃ w fuel w', w.vol = v ∧ getFile env fuel path default w = .ok ((.success, file), w')

/-- Every file that a path finds has a good chain. -/
def FilesHold (env : Env) (v : VolumeInfo) : Prop :=
  ∀ path file, Found env v path file → ∃ cs, Holds env v file.firstCluster file.fileSize.toNat cs

/-- Every file in a directory that can be reached has a good chain. -/
def EntriesHold (env : Env) (v : VolumeInfo) : Prop :=
  ∀ e, OnCard env v e → Reported e → ¬ IsDir e → ∃ cs, Holds env v (entryCluster e) (readLe32 e 28).toNat cs

theorem EntriesHold.filesHold {env : Env} {v : VolumeInfo} (h : EntriesHold env v) (hv : v.Sectors) : FilesHold env v := by
  intro path file ⟨w, fuel, w', hvol, e⟩
  have hq : Admits env v fun s => s.vol = v := ⟨fun _ h => h, fun _ _ _ h => h, fun _ h => h⟩
  obtain ⟨-, hok⟩ := getFile_reach hv hq fuel path default w hvol _ _ e
  obtain ⟨⟨x, hx, hrep, hdec⟩, hdir⟩ := hok rfl
  rw [hdec.firstCluster, hdec.fileSize]
  refine h x hx hrep fun hd => ?_
  rw [hdec.isDirectory.mpr hd] at hdir; cases hdir

/-! ## The calls -/

/-- What a mount leaves. -/
theorem fat32Init_ok {env : Env} {w0 w : World} (h : fat32Init env w0 = .ok (true, w)) :
    w.vol.isInitialized = true ∧
      w.vol.bytesPerCluster = w.vol.sectorsPerCluster.toUInt32 * w.vol.bytesPerSector.toUInt32 ∧
      ∀ i, (w.handles i).isFree = true := by
  rcases fat32Init_cases env w0 with ⟨-, w', e⟩ | ⟨i, -, -, -, e⟩
  · rw [e] at h; cases h
  · split at e
    · rw [e] at h; cases h
    · obtain ⟨cs, e⟩ := e
      rw [e] at h
      cases h
      exact ⟨rfl, rfl, fun _ => rfl⟩

/-- The handle that `fat32_open` sets up. -/
def openHandle (file : FileInfo) (mode : UInt8) : FileHandle where
  clusterStart := file.firstCluster
  currentCluster := file.firstCluster
  currentOffset := 0
  fileSize := file.fileSize
  currentFilePos := 0
  isFree := false
  mode := mode

/-- What `fat32_open` makes of the answer of `get_file`. -/
def openResult (mode : UInt8) (r : (FatError × FileInfo) × World) : UInt32 × World :=
  if r.1.1 ≠ .success then (noFile, r.2)
  else
    match (List.finRange 16).find? fun i => (r.2.handles i).isFree with
    | some i => (UInt32.ofNat i, { r.2 with handles := fun j => if j = i then openHandle r.1.2 mode else r.2.handles j })
    | none => (noFile, r.2)

theorem fat32Open_eq (env : Env) (fuel : Nat) (path : List UInt8) (mode : UInt8) (w : World) :
    fat32Open env fuel path mode w = (getFile env fuel path default w).bind fun r => .ok (openResult mode r) := by
  rw [fat32Open, bind_apply]
  refine congrArg (Except.bind _) (funext fun ⟨⟨res, file⟩, w1⟩ => ?_)
  by_cases hr : res = .success
  · subst hr
    cases hf : (List.finRange 16).find? fun i => (w1.handles i).isFree with
    | none => simp [openResult, hf]
    | some i => simp [openResult, hf, openHandle]
  · simp [openResult, hr]

/-- `fat32_open` fails and leaves the handles alone, or takes the first free slot for the
    file that the path finds. -/
theorem fat32Open_cases {env : Env} {fuel : Nat} {path : List UInt8} {mode : UInt8} {w w' : World} {id : UInt32}
    (h : fat32Open env fuel path mode w = .ok (id, w')) : w'.vol = w.vol ∧
      (id = noFile ∧ w'.handles = w.handles ∨
        ∃ i file, Found env w.vol path file ∧ (w.handles i).isFree = true ∧ id = UInt32.ofNat i.val ∧
          w'.handles = fun j => if j = i then openHandle file mode else w.handles j) := by
  rw [fat32Open_eq] at h
  cases hg : getFile env fuel path default w with
  | error e => rw [hg] at h; cases h
  | ok r =>
    obtain ⟨⟨res, file⟩, w1⟩ := r
    have hq : Quiet fun s => s.vol = w.vol ∧ s.handles = w.handles := ⟨⟨fun _ _ h => h⟩, fun _ h => h⟩
    obtain ⟨hvol, hhan⟩ := getFile_keeps env hq fuel path default w ⟨rfl, rfl⟩ _ _ hg
    rw [hg] at h
    simp only [ok_bind, openResult, Except.ok.injEq] at h
    by_cases hs : res = .success
    · subst hs
      simp only [ne_eq, not_true_eq_false, if_false] at h
      cases hf : (List.finRange 16).find? fun i => (w1.handles i).isFree with
      | none =>
        rw [hf] at h
        cases h
        exact ⟨hvol, Or.inl ⟨rfl, hhan⟩⟩
      | some i =>
        rw [hf] at h
        cases h
        have hfree : (w1.handles i).isFree = true := by simpa using List.find?_some hf
        rw [hhan] at hfree
        refine ⟨hvol, Or.inr ⟨i, file, ⟨w, fuel, w1, rfl, hg⟩, hfree, rfl, ?_⟩⟩
        funext j
        rw [← hhan]
    · simp only [ne_eq, hs, not_false_eq_true, if_true] at h
      cases h
      exact ⟨hvol, Or.inl ⟨rfl, hhan⟩⟩

theorem fat32Close_cases {w w' : World} {id : UInt32} {ok : Bool} (h : fat32Close id w = .ok (ok, w')) :
    (16 ≤ id.toNat ∧ ok = false ∧ w' = w) ∨ ∃ hi : id.toNat < 16, ok = true ∧
      w' = { w with handles := fun j =>
        if j = ⟨id.toNat, hi⟩ then { w.handles ⟨id.toNat, hi⟩ with isFree := true } else w.handles j } := by
  by_cases hi : id.toNat < 16
  · simp only [fat32Close, hi, dif_pos, bind_apply, get_apply, ok_bind] at h
    cases h
    exact Or.inr ⟨hi, rfl, rfl⟩
  · simp only [fat32Close, hi, dif_neg, not_false_eq_true] at h
    cases h
    exact Or.inl ⟨by omega, rfl, rfl⟩

/-- A read that is refused: no buffer, no such handle, or a closed one. -/
theorem fat32Read_refused (env : Env) {w : World} {id n : UInt32} {buffer : Option Buf}
    (h : buffer = none ∨ ∀ hi : id.toNat < 16, (w.handles ⟨id.toNat, hi⟩).isFree = true) :
    fat32Read env id buffer n w = .ok ((false, buffer), w) := by
  by_cases hi : id.toNat < 16
  · rcases h with rfl | h
    · simp [fat32Read, hi]
    · cases buffer <;> simp [fat32Read, hi, h hi]
  · simp [fat32Read, hi]

/-! ## Handles on their files -/

/-- Every open handle stands on its file. -/
def OnFiles (env : Env) (w : World) : Prop :=
  ∀ i, (w.handles i).isFree = false → ∃ cs, OnFile env w.vol (w.handles i) cs

/-- The lookup of the cluster behind byte `j * bpc`, between two clusters of the file, is not
    the first command to fail in the read of `n` bytes. -/
def LookupsOk (env : Env) (w : World) : Call → Prop
  | .read id (some _) n _ _ => ∀ (hi : id.toNat < 16) (cs : List UInt32) (j : Nat),
      let h := w.handles ⟨id.toNat, hi⟩
      let p := h.currentFilePos.toNat
      h.isFree = false → FileChain env w.vol h.clusterStart cs → j < cs.length →
      p < j * w.vol.bpc → j * w.vol.bpc ≤ p + h.wanted n →
      env.fails (lookupAt w.vol w.calls.length p j) = true →
      ∃ k, w.calls.length ≤ k ∧ k < lookupAt w.vol w.calls.length p j ∧ env.fails k = true
  | _ => True

variable {env : Env} {w w' : World}

theorem Holds.opened {v : VolumeInfo} {file : FileInfo} {mode : UInt8} {cs : List UInt32}
    (hh : Holds env v file.firstCluster file.fileSize.toNat cs) : OnFile env v (openHandle file mode) cs := by
  refine ⟨hh, Nat.zero_le _, ?_⟩
  cases cs with
  | nil => exact Or.inr (by simp [openHandle])
  | cons c cs =>
    have hc : c = file.firstCluster := hh.chain.1
    refine Or.inl ⟨?_, ?_⟩
    · show (0 : UInt32).toNat = (0 : UInt32).toNat % v.bpc
      simp
    · show (c :: cs)[(0 : UInt32).toNat / v.bpc]? = some file.firstCluster
      simp [hc]

section
variable {h h' : FileHandle} {v : VolumeInfo} {cs : List UInt32} {base m left : Nat} {n : UInt32} {res : FatError}

/-- Where a read that did not die between two clusters leaves the handle. -/
theorem OnChain.after (ho : OnChain env v h cs) (hc : h'.clusterStart = h.clusterStart) (hs : h'.fileSize = h.fileSize)
    (hp : h'.currentFilePos.toNat = h.currentFilePos.toNat + m) (hleft : h.currentFilePos.toNat + left ≤ h.fileSize.toNat)
    (hout : ReadOutcome env v cs base h.currentFilePos.toNat left res m h')
    (hl : ∀ j, h.currentFilePos.toNat < j * v.bpc → j < cs.length → j * v.bpc ≤ h.currentFilePos.toNat + left →
      env.fails (lookupAt v base h.currentFilePos.toNat j) = true →
      ∃ k, base ≤ k ∧ k < lookupAt v base h.currentFilePos.toNat j ∧ env.fails k = true) :
    OnChain env v h' cs := by
  have hchain : FileChain env v h'.clusterStart cs := by rw [hc]; exact ho.chain
  have hsmall : h'.fileSize.toNat < 2 ^ 31 := by rw [hs]; exact ho.small
  cases hout with
  | all ha =>
    refine ⟨hchain, hsmall, by rw [hp, hs]; omega, ?_⟩
    rw [hp]; exact ha
  | stopped _ hm ha =>
    refine ⟨hchain, hsmall, by rw [hp, hs]; omega, ?_⟩
    rw [hp]; exact ha
  | @between _ j _ hj hlen he hm hf hlt =>
    obtain ⟨k, h1, h2, h3⟩ := hl j hj hlen (by omega) hf
    rw [hlt k h1 h2] at h3; cases h3

theorem OnFile.after (ho : OnFile env v h cs) (hc : h'.clusterStart = h.clusterStart) (hs : h'.fileSize = h.fileSize)
    (hp : h'.currentFilePos.toNat = h.currentFilePos.toNat + m)
    (hout : ReadOutcome env v cs base h.currentFilePos.toNat (h.wanted n) res m h')
    (hl : ∀ j, h.currentFilePos.toNat < j * v.bpc → j < cs.length →
      j * v.bpc ≤ h.currentFilePos.toNat + h.wanted n →
      env.fails (lookupAt v base h.currentFilePos.toNat j) = true →
      ∃ k, base ≤ k ∧ k < lookupAt v base h.currentFilePos.toNat j ∧ env.fails k = true) :
    OnFile env v h' cs := by
  have hholds : Holds env v h'.clusterStart h'.fileSize.toNat cs := by rw [hc, hs]; exact ho.holds
  have hon := ho.onChain.after hc hs hp (ho.onChain.wanted_le n) hout hl
  exact ⟨hholds, hon.pos, hon.cursor⟩

end

theorem OnFiles.congr (ho : OnFiles env w) (hv : w'.vol = w.vol) (hh : w'.handles = w.handles) : OnFiles env w' := by
  unfold OnFiles
  rw [hv, hh]; exact ho

/-- One call keeps every open handle on its file. -/
theorem step_onFiles {l : Call} (hv : w.vol.WellFormed) (hf : FilesHold env w.vol) (ho : OnFiles env w)
    (hsm : l.Small) (hok : LookupsOk env w l) (hs : FileStep env w l w') : w'.vol = w.vol ∧ OnFiles env w' := by
  cases hs with
  | openFile e =>
    obtain ⟨hvol, ⟨-, hh⟩ | ⟨i, file, hfound, -, -, hh⟩⟩ := fat32Open_cases e
    · exact ⟨hvol, ho.congr hvol hh⟩
    · refine ⟨hvol, fun j hj => ?_⟩
      rw [hvol]
      rw [hh] at hj ⊢
      by_cases hji : j = i
      · obtain ⟨cs, hcs⟩ := hf _ file hfound
        exact ⟨cs, by simp only [hji, if_true]; exact hcs.opened⟩
      · simp only [hji, if_false] at hj ⊢
        exact ho j hj
  | close e =>
    rcases fat32Close_cases e with ⟨-, -, rfl⟩ | ⟨hi, -, rfl⟩
    · exact ⟨rfl, ho⟩
    · refine ⟨rfl, fun j hj => ?_⟩
      by_cases hji : j = ⟨_, hi⟩
      · simp [hji] at hj
      · simp only [hji, if_false] at hj ⊢
        exact ho j hj
  | @read _ id n buffer buffer' ok e =>
    by_cases hr : buffer = none ∨ ∀ hi : id.toNat < 16, (w.handles ⟨id.toNat, hi⟩).isFree = true
    · rw [fat32Read_refused env hr] at e
      cases e; exact ⟨rfl, ho⟩
    · simp only [not_or, not_forall, Bool.not_eq_true] at hr
      obtain ⟨hb, hi, hopen⟩ := hr
      obtain ⟨buf, rfl⟩ := Option.ne_none_iff_exists'.mp hb
      obtain ⟨cs, hcs⟩ := ho ⟨id.toNat, hi⟩ hopen
      obtain ⟨res, m, buf', w1, e1, hmv, hp, hout, -⟩ := fat32Read_spec hv hi buf hcs hopen hsm
      rw [e1] at e
      cases e
      refine ⟨hmv.vol, fun j hj => ?_⟩
      rw [hmv.vol]
      by_cases hji : j = ⟨id.toNat, hi⟩
      · subst hji
        exact ⟨cs, hcs.after hmv.clusterStart hmv.fileSize hp hout
          fun j h1 h2 h3 h4 => hok hi cs j hopen hcs.holds.chain h2 h1 h3 h4⟩
      · rw [hmv.others j hji] at hj ⊢
        exact ho j hj

/-- What runs on a mounted volume keep. -/
structure Mounted (env : Env) (v : VolumeInfo) (w : World) : Prop where
  vol : w.vol = v
  onFiles : OnFiles env w

/-- Requests are small, and no read dies in a lookup between two clusters. -/
def StepOk (env : Env) (w : World) (l : Call) : Prop := l.Small ∧ LookupsOk env w l

theorem run_mounted {v : VolumeInfo} {ls : List Call} (hv : v.WellFormed) (hf : FilesHold env v) (h : Mounted env v w)
    (hr : Run (Guard (StepOk env) (FileStep env)) w ls w') : Mounted env v w' := by
  have hstep : ∀ s l t, Mounted env v s → Guard (StepOk env) (FileStep env) s l t → Mounted env v t := by
    rintro s l t ⟨hs, ho⟩ ⟨⟨hsm, hok⟩, hst⟩
    subst hs
    obtain ⟨hvol, ho'⟩ := step_onFiles hv hf ho hsm hok hst
    exact ⟨hvol, ho'⟩
  exact hr.invariant hstep h

theorem mounted_init {w0 : World} (h : fat32Init env w0 = .ok (true, w)) : Mounted env w.vol w :=
  ⟨rfl, fun i hi => by rw [(fat32Init_ok h).2.2 i] at hi; cases hi⟩

theorem mounted_wellFormed {w0 : World} (h : fat32Init env w0 = .ok (true, w)) (hs : w.vol.bytesPerSector = 512)
    (hc : w.vol.sectorsPerCluster ≠ 0) (hn : w.vol.totalClusters.toNat + 2 ≤ 0x0FFFFFF7) : w.vol.WellFormed :=
  ⟨(fat32Init_ok h).1, hs, hc, (fat32Init_ok h).2.1, hn⟩

/-! ## A card with one file

`/A` of 600 bytes, in clusters 3 and 5; what lies between them is not its own. -/

def sampleCard : Env := card [
  (0, 446, 0x80), (0, 450, 0x0C), (0, 454, 1), (0, 458, 100), (0, 510, 0x55), (0, 511, 0xAA),
  (1, 0x0C, 2), (1, 0x0D, 1), (1, 0x0E, 1), (1, 0x10, 1), (1, 36, 1), (1, 44, 2),
  (2, 8, 0xF8), (2, 9, 0xFF), (2, 10, 0xFF), (2, 11, 0x0F), (2, 12, 5),
  (2, 20, 0xF8), (2, 21, 0xFF), (2, 22, 0xFF), (2, 23, 0x0F),
  (3, 0, 0x41), (3, 1, 0x20), (3, 8, 0x20), (3, 26, 3), (3, 28, 0x58), (3, 29, 2),
  (4, 0, 0x61), (5, 0, 0xEE), (6, 0, 0x62)]

def sampleVolume : VolumeInfo where
  volumeStartLba := 1
  bytesPerSector := 512
  sectorsPerCluster := 1
  reservedSectorCount := 1
  numFats := 1
  fatSizeSectors := 1
  rootDirCluster := 2
  totalSectors := 100
  totalClusters := 98
  firstFatLba := 2
  dataStartLba := 3
  isInitialized := true
  fsinfoSectorLba := 0
  backupBootSectorLba := 0
  bytesPerCluster := 512

/-- The card with failing commands. -/
def failing (f : Nat → Bool) : Env := { sampleCard with fails := f }

theorem sampleVolume_wellFormed : sampleVolume.WellFormed := ⟨rfl, rfl, by decide, rfl, by decide⟩

theorem sample_dirReach {f : Nat → Bool} {c : UInt32} (h : DirReach (failing f) sampleVolume c) : c = 2 := by
  have hend : fatEntry sampleCard sampleVolume 2 = 0x0FFFFFF8 := by decide +kernel
  have hend' : fatEntry (failing f) sampleVolume 2 = 0x0FFFFFF8 := hend
  have hdir : ∀ k < 16, ¬ IsDir (dirEntry sampleCard sampleVolume 2 0 k) := by decide +kernel
  induction h with
  | root => rfl
  | next _ _ hf ih => rw [ih, hend'] at hf; cases hf
  | @sub _ s k _ hs hk hr hd ih =>
    subst ih
    have h1 : sampleVolume.sectorsPerCluster.toNat = 1 := rfl
    obtain rfl : s = 0 := by omega
    exact absurd hd (hdir k hk)

theorem sample_chain (f : Nat → Bool) : Chain (failing f) sampleVolume [3, 5] := by
  have h3 : fatEntry sampleCard sampleVolume 3 = 5 := by decide +kernel
  have h5 : fatEntry sampleCard sampleVolume 5 = 0x0FFFFFF8 := by decide +kernel
  have h5' : fatEntry (failing f) sampleVolume 5 = 0x0FFFFFF8 := h5
  exact ⟨⟨by decide, by decide⟩, h3, ⟨by decide, by decide⟩, by rw [h5']; exact ⟨by decide, by decide⟩⟩

theorem sample_filesHold (f : Nat → Bool) : FilesHold (failing f) sampleVolume := by
  have hent : ∀ k < 16, Reported (dirEntry sampleCard sampleVolume 2 0 k) →
      entryCluster (dirEntry sampleCard sampleVolume 2 0 k) = 3 ∧
      readLe32 (dirEntry sampleCard sampleVolume 2 0 k) 28 = 600 := by decide +kernel
  refine EntriesHold.filesHold ?_ sampleVolume_wellFormed.sectors
  rintro e ⟨c, s, k, hc, hs, hk, rfl⟩ hr _
  have h1 : sampleVolume.sectorsPerCluster.toNat = 1 := rfl
  obtain rfl : s = 0 := by omega
  rw [sample_dirReach hc] at hr ⊢
  obtain ⟨h3, h600⟩ := hent k hk hr
  have h3' : entryCluster (dirEntry (failing f) sampleVolume 2 0 k) = 3 := h3
  have h600' : readLe32 (dirEntry (failing f) sampleVolume 2 0 k) 28 = 600 := h600
  rw [h3', h600']
  exact ⟨[3, 5], ⟨rfl, sample_chain f⟩, by decide, by decide⟩

/-- The states after the mount, `/A` opened, and 600 bytes of it asked for. -/
def mountOn (f : Nat → Bool) : World := after (fat32Init (failing f) World.boot)

def openOn (f : Nat → Bool) : World := after (fat32Open (failing f) 9 [0x2F, 0x41] 0 (mountOn f))

def readOn (f : Nat → Bool) : Except Halt ((Bool × Option Buf) × World) :=
  fat32Read (failing f) 0 (some fun _ => 0) 600 (openOn f)

/-- A read that could not be answered, by its flag. -/
theorem answer_fst {α β : Type} {x : Except Halt ((α × β) × World)} {a : α} (h : (answer x).map (·.1) = some a) :
    ∃ b, x = .ok ((a, b), after x) := by
  cases x with
  | error _ => cases h
  | ok r => cases h; exact ⟨_, rfl⟩

/-! ## Runs with failing reads -/

/-- After any run of calls with failing SD reads, in which no read dies in the lookup
    between two clusters, every open handle stands on its file; and a read that returns
    true delivers the file's bytes from the handle's position on. -/
theorem failing_reads_keep_cursors {w0 : World} {ls : List Call} (h : fat32Init env w0 = .ok (true, w))
    (hs : w.vol.bytesPerSector = 512) (hc : w.vol.sectorsPerCluster ≠ 0)
    (hn : w.vol.totalClusters.toNat + 2 ≤ 0x0FFFFFF7) (hf : FilesHold env w.vol)
    (hr : Run (Guard (StepOk env) (FileStep env)) w ls w') :
    (∀ i, (w'.handles i).isFree = false → ∃ cs, OnFile env w.vol (w'.handles i) cs) ∧
    ∀ (id n : UInt32) (hi : id.toNat < 16) (buf : Buf) (buf' : Option Buf) (w'' : World),
      n.toNat < 2 ^ 31 → (w'.handles ⟨id.toNat, hi⟩).isFree = false →
      fat32Read env id (some buf) n w' = .ok ((true, buf'), w'') →
      ∃ cs b, FileChain env w.vol (w'.handles ⟨id.toNat, hi⟩).clusterStart cs ∧ buf' = some b ∧
        Delivered env w.vol cs (w'.handles ⟨id.toNat, hi⟩).currentFilePos.toNat 0
          ((w'.handles ⟨id.toNat, hi⟩).wanted n) buf b := by
  have hv := mounted_wellFormed h hs hc hn
  obtain ⟨hvol, ho⟩ := run_mounted hv hf (mounted_init h) hr
  unfold OnFiles at ho
  rw [hvol] at ho
  refine ⟨ho, fun id n hi buf buf' w'' hsm hopen e => ?_⟩
  obtain ⟨cs, hcs⟩ := ho _ hopen
  rw [← hvol] at hv hcs
  obtain ⟨res, m, b, w1, e1, -, -, -, hd⟩ := fat32Read_spec hv hi buf hcs hopen hsm
  rw [e1] at e
  simp only [Except.ok.injEq, Prod.mk.injEq] at e
  obtain ⟨⟨hres, rfl⟩, -⟩ := e
  rw [hvol] at hcs hd
  exact ⟨cs, b, hcs.holds.chain, rfl, hd (by simpa using hres)⟩

/-- The data read of the first sector fails. -/
theorem failing_reads_keep_cursors_sample : ∃ ls,
    Run (Guard (StepOk (failing (· == 3))) (FileStep (failing (· == 3)))) (mountOn (· == 3)) ls (after (readOn (· == 3))) ∧
    ls.length = 2 ∧ ((after (readOn (· == 3))).handles 0).isFree = false ∧
    ∃ cs, OnFile (failing (· == 3)) sampleVolume ((after (readOn (· == 3))).handles 0) cs := by
  have h0 : answer (fat32Init (failing (· == 3)) World.boot) = some true := by decide +kernel
  have hvol : (mountOn (· == 3)).vol = sampleVolume := by decide +kernel
  have h1 : answer (fat32Open (failing (· == 3)) 9 [0x2F, 0x41] 0 (mountOn (· == 3))) = some 0 := by decide +kernel
  have h2 : (answer (readOn (· == 3))).map (·.1) = some false := by decide +kernel
  have hcalls : (openOn (· == 3)).calls.length = 3 := by decide +kernel
  have hfree : ((after (readOn (· == 3))).handles 0).isFree = false := by decide +kernel
  obtain ⟨b, h2⟩ := answer_fst h2
  have hok : StepOk (failing (· == 3)) (openOn (· == 3)) (.read 0 (some fun _ => 0) 600 false b) := by
    refine ⟨show (600 : UInt32).toNat < 2 ^ 31 by decide, fun hi cs j _ _ _ hj _ hf => ?_⟩
    -- the lookup comes behind the read of the sector
    have hgt : 3 < lookupAt (openOn (· == 3)).vol 3 ((openOn (· == 3)).handles ⟨_, hi⟩).currentFilePos.toNat j := by
      rw [mul_bpc] at hj
      unfold lookupAt; omega
    have hf' : (lookupAt (openOn (· == 3)).vol (openOn (· == 3)).calls.length _ j == 3) = true := hf
    rw [hcalls, beq_iff_eq] at hf'
    omega
  have hrun : Run (Guard (StepOk (failing (· == 3))) (FileStep (failing (· == 3)))) (mountOn (· == 3))
      [.openFile [0x2F, 0x41] 0 0, .read 0 (some fun _ => 0) 600 false b] (after (readOn (· == 3))) :=
    .cons ⟨⟨trivial, trivial⟩, .openFile (answer_some h1)⟩ (.cons ⟨hok, .read h2⟩ (.nil _))
  refine ⟨_, hrun, rfl, hfree, ?_⟩
  have key := failing_reads_keep_cursors (answer_some h0) (by rw [show after _ = mountOn _ from rfl, hvol]; rfl)
    (by rw [show after _ = mountOn _ from rfl, hvol]; decide) (by rw [show after _ = mountOn _ from rfl, hvol]; decide)
    (by rw [show after _ = mountOn _ from rfl, hvol]; exact sample_filesHold _) hrun
  have := key.1 0 hfree
  rwa [show after _ = mountOn _ from rfl, hvol] at this

/-- The lookup between the two clusters fails: the position has moved on and the cluster
    has not, and the next read returns true with bytes of the sector behind cluster 3. -/
theorem failed_lookup_loses_cursor : ∃ (env : Env) (w w' w'' : World) (ls : List Call) (b : Buf),
    fat32Init env World.boot = .ok (true, w) ∧ w.vol.WellFormed ∧ FilesHold env w.vol ∧
    Run (Guard (fun _ l => l.Small) (FileStep env)) w ls w' ∧
    (w'.handles 0).isFree = false ∧ (∀ cs, ¬ OnFile env w.vol (w'.handles 0) cs) ∧
    fat32Read env 0 (some fun _ => 0) 88 w' = .ok ((true, some b), w'') ∧
    ∀ cs, FileChain env w.vol (w'.handles 0).clusterStart cs →
      ¬ Delivered env w.vol cs (w'.handles 0).currentFilePos.toNat 0 88 (fun _ => 0) b := by
  have h0 : answer (fat32Init (failing (· == 4)) World.boot) = some true := by decide +kernel
  have hvol : (mountOn (· == 4)).vol = sampleVolume := by decide +kernel
  have h1 : answer (fat32Open (failing (· == 4)) 9 [0x2F, 0x41] 0 (mountOn (· == 4))) = some 0 := by decide +kernel
  have h2 : (answer (readOn (· == 4))).map (·.1) = some false := by decide +kernel
  have h3 : (answer (fat32Read (failing (· == 4)) 0 (some fun _ => 0) 88 (after (readOn (· == 4))))).map
      (fun r => (r.1, r.2.map (· 0))) = some (true, some 0xEE) := by decide +kernel
  have hh : (after (readOn (· == 4))).handles 0 = { openHandle ⟨fun _ => 0, 3, 600, 0, false⟩ 0 with
      currentOffset := 512
      currentFilePos := 512 } := by decide +kernel
  have hf3 : fatEntry (failing (· == 4)) sampleVolume 3 = 5 := by decide +kernel
  -- the second cluster of the chain is 5
  have hsecond : ∀ cs, FileChain (failing (· == 4)) sampleVolume 3 cs → cs[1]? = some 5 := by
    intro cs hc
    match cs, hc with
    | [], hc => cases hc
    | [c], ⟨hc, hch⟩ =>
      subst hc
      have hend : IsEoc 5 := hf3 ▸ hch.2
      exact absurd hend.1 (by decide)
    | c :: d :: cs, ⟨hc, hch⟩ =>
      subst hc
      rw [← hf3]
      exact congrArg some hch.2.1.symm
  obtain ⟨ob, h2⟩ := answer_fst h2
  cases h4 : answer (fat32Read (failing (· == 4)) 0 (some fun _ => 0) 88 (after (readOn (· == 4)))) with
  | none => rw [h4] at h3; cases h3
  | some r =>
    obtain ⟨ok, ob'⟩ := r
    rw [h4] at h3
    cases ob' with
    | none => simp at h3
    | some b =>
      simp only [Option.map_some, Option.some.injEq, Prod.mk.injEq] at h3
      obtain ⟨rfl, hb⟩ := h3
      have hrun : Run (Guard (fun _ l => l.Small) (FileStep (failing (· == 4)))) (mountOn (· == 4))
          [.openFile [0x2F, 0x41] 0 0, .read 0 (some fun _ => 0) 600 false ob] (after (readOn (· == 4))) :=
        .cons ⟨trivial, .openFile (answer_some h1)⟩
          (.cons ⟨show (600 : UInt32).toNat < 2 ^ 31 by decide, .read h2⟩ (.nil _))
      refine ⟨failing (· == 4), mountOn (· == 4), _, _, _, b, answer_some h0, ?_, ?_, hrun, ?_, ?_, answer_some h4, ?_⟩
      · rw [hvol]; exact sampleVolume_wellFormed
      · rw [hvol]; exact sample_filesHold _
      · rw [hh]; rfl
      · intro cs ho
        rw [hvol, hh] at ho
        have hroom : 600 ≤ cs.length * 512 := ho.holds.room
        have h5 := hsecond cs ho.holds.chain
        rcases ho.cursor with hc | hc
        · have h3 : cs[1]? = some 3 := hc.cluster
          rw [h5] at h3; cases h3
        · have h1 : 512 = cs.length * 512 := hc
          omega
      · intro cs hc hd
        rw [hvol, hh] at hc hd
        have h0 : b 0 = chainByte (failing (· == 4)) sampleVolume cs 512 := hd 0
        have h5 : cs.getD 1 0 = 5 := by rw [List.getD_eq_getElem?_getD, hsecond cs hc]; rfl
        have hbyte : clusterByte (failing (· == 4)) sampleVolume 5 0 = 0x62 := by decide +kernel
        have hc5 : chainByte (failing (· == 4)) sampleVolume cs 512 =
            clusterByte (failing (· == 4)) sampleVolume (cs.getD 1 0) 0 := rfl
        rw [hb, hc5, h5, hbyte] at h0
        cases h0

end OpenGpos.Fat
