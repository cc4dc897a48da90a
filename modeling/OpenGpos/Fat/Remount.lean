/-
  OpenGpos.Fat.Remount — mounting again. A mount that fails at the boot sector has stored the
  partition already. Where a volume is mounted then, it stays so, with the old clusters behind
  another start (`failed_mount_iff`).
-/
import OpenGpos.Fat.Handles

namespace OpenGpos.Fat

open OpenGpos.Lib.Runs OpenGpos.Lib.Hoare

/-- A call on the card that is there at the time. -/
inductive MountCall where
  | init (env : Env) (ok : Bool)
  | file (env : Env) (call : Call)

inductive MountStep : World → MountCall → World → Prop
  | init {env : Env} {w w' : World} {ok : Bool} : fat32Init env w = .ok (ok, w') → MountStep w (.init env ok) w'
  | file {env : Env} {w w' : World} {call : Call} : FileStep env w call w' → MountStep w (.file env call) w'

/-- An open or a read fails. -/
def Call.Fails : Call → Prop
  | .openFile _ _ id => id = noFile
  | .read _ _ _ ok _ => ok = false
  | .close _ _ => True

/-- Until the next mount every open and every read fails, on whatever card. -/
def Closed (w : World) : Prop :=
  ∀ ls w', Run (fun w l w' => ∃ env, FileStep env w l w') w ls w' → ∀ l ∈ ls, l.Fails

/-- Where this mount fails, it changes neither the volume nor a handle, or nothing is mounted. -/
def MountClean (env : Env) (w : World) : Prop := ∀ w', fat32Init env w = .ok (false, w') →
  (w'.vol = w.vol ∧ w'.handles = w.handles) ∨ (w'.vol.isInitialized = false ∧ Closed w')

/-- The partition entry of the card is that of the volume. -/
def SamePartition (env : Env) (v : VolumeInfo) (i : Nat) : Prop :=
  readLe32 (mbrData env) (i * 16 + 12) = v.totalSectors ∧ readLe32 (mbrData env) (i * 16 + 8) = v.volumeStartLba

/-- Where a volume is mounted and the card has a partition, its boot sector can be read, or the
    partition is that of the volume. -/
def NotHalfway (env : Env) (w : World) : Prop :=
  ∀ i, w.vol.isInitialized = true → env.fails w.calls.length = false → mbrPartition env = some i →
    env.fails (w.calls.length + 1) = true → SamePartition env w.vol i

def MountCall.NotHalfway (w : World) : MountCall → Prop
  | .init env _ => Fat.NotHalfway env w
  | .file _ _ => True

/-- Partition and boot sector of the mounted volume are of one card. -/
def OneCard (w : World) : Prop :=
  w.vol.isInitialized = true → ∃ env v i, mbrPartition env = some i ∧ w.vol = mountedVolume env v i

/-! ## Steps -/

section
variable {env : Env} {w w' : World}

theorem fat32Open_uninitialized (hi : w.vol.isInitialized = false) (fuel : Nat) (path : List UInt8) (mode : UInt8) :
    fat32Open env fuel path mode w = .ok (noFile, w) := by
  have hget : getFile env fuel path default w = .ok ((.notInitialized, default), w) := by
    simp [getFile, fatInitRootDirIterator, hi]
  rw [fat32Open_eq, hget]
  rfl

theorem fat32Read_uninitialized (hi : w.vol.isInitialized = false) {id n : UInt32} {buffer : Option Buf}
    {r : Bool × Option Buf} (h : fat32Read env id buffer n w = .ok (r, w')) : r.1 = false := by
  have e : fat32Read env id buffer n w = .ok ((false, buffer), w) := by
    by_cases hid : id.toNat < 16
    · have hfile : fatReadFile env id buffer n w = .ok ((.notInitialized, buffer), w) := by
        simp [fatReadFile, hi]
      by_cases hb : buffer.isNone = true
      · simp [fat32Read, hid, hb]
      by_cases hf : (w.handles ⟨id.toNat, hid⟩).isFree = true
      · simp [fat32Read, hid, hb, hf]
      · simp [fat32Read, hid, hb, hf, hfile]
    · simp [fat32Read, hid]
  rw [e] at h
  cases h
  rfl

theorem fileStep_vol {l : Call} (h : FileStep env w l w') : w'.vol = w.vol := by
  cases h with
  | openFile h => exact (fat32Open_cases h).1
  | read h => exact fat32Read_vol env h
  | close h =>
    rcases fat32Close_cases h with ⟨-, -, rfl⟩ | ⟨hi, -, rfl⟩
    · rfl
    · rfl

theorem fileStep_fails {l : Call} (hi : w.vol.isInitialized = false) (h : FileStep env w l w') : l.Fails := by
  cases h with
  | openFile h =>
    rw [fat32Open_uninitialized hi] at h
    cases h
    rfl
  | read h => exact fat32Read_uninitialized hi h
  | close h => trivial

end

/-- Without a volume there is nothing to open or to read. -/
theorem closed_of_uninitialized {w : World} (hi : w.vol.isInitialized = false) : Closed w := by
  intro ls w' h
  induction h with
  | nil => intro l hl; cases hl
  | cons hs _ ih =>
    obtain ⟨env, hs⟩ := hs
    intro l hl
    rcases List.mem_cons.mp hl with rfl | hl
    · exact fileStep_fails hi hs
    · exact ih (by rw [fileStep_vol hs]; exact hi) l hl

/-! ## Mounts that fail -/

/-- The volume after a boot record was taken in. -/
def mbrVolume (env : Env) (v : VolumeInfo) (i : Nat) : VolumeInfo := { v with
  totalSectors := readLe32 (mbrData env) (i * 16 + 12)
  volumeStartLba := readLe32 (mbrData env) (i * 16 + 8) }

theorem mbrVolume_eq_iff {env : Env} {v : VolumeInfo} {i : Nat} : mbrVolume env v i = v ↔ SamePartition env v i := by
  constructor
  · intro h
    exact ⟨congrArg VolumeInfo.totalSectors h, congrArg VolumeInfo.volumeStartLba h⟩
  · rintro ⟨h1, h2⟩
    unfold mbrVolume
    rw [h1, h2]

section
variable {env : Env} {w w' : World}

/-- The boot record is taken in and the boot sector cannot be read. -/
theorem fat32Init_halfway {i : Nat} (hf : env.fails w.calls.length = false) (hp : mbrPartition env = some i)
    (hf' : env.fails (w.calls.length + 1) = true) :
    ∃ cs, fat32Init env w = .ok (false, { w with calls := cs, vol := mbrVolume env w.vol i }) := by
  obtain ⟨cs, hcs, e⟩ := parseMBR_eq env w
  rw [hf, hp] at e
  obtain ⟨cs', -, e'⟩ := parseBPB_eq env { w with calls := cs, vol := mbrVolume env w.vol i }
  rw [show World.calls { w with calls := cs, vol := mbrVolume env w.vol i } = cs from rfl, hcs, hf'] at e'
  refine ⟨cs', ?_⟩
  have e1 : parseMBR env w = .ok (true, { w with calls := cs, vol := mbrVolume env w.vol i }) := e
  simp [fat32Init, e1, e']

/-- A mount that fails fails before it took a boot record in, or halfway. -/
theorem fat32Init_false (h : fat32Init env w = .ok (false, w')) : w'.handles = w.handles ∧
    (w'.vol = w.vol ∨ ∃ i, env.fails w.calls.length = false ∧ mbrPartition env = some i ∧
      env.fails (w.calls.length + 1) = true ∧ w'.vol = mbrVolume env w.vol i) := by
  obtain ⟨cs, hcs, e⟩ := parseMBR_eq env w
  by_cases hf : env.fails w.calls.length = true
  · have e1 : parseMBR env w = .ok (false, { w with calls := cs }) := by simp [e, hf]
    rw [show fat32Init env w = .ok (false, { w with calls := cs }) by simp [fat32Init, e1]] at h
    cases h
    exact ⟨rfl, Or.inl rfl⟩
  have hf0 : env.fails w.calls.length = false := by simpa using hf
  cases hp : mbrPartition env with
  | none =>
    have e1 : parseMBR env w = .ok (false, { w with calls := cs }) := by simp [e, hf, hp]
    rw [show fat32Init env w = .ok (false, { w with calls := cs }) by simp [fat32Init, e1]] at h
    cases h
    exact ⟨rfl, Or.inl rfl⟩
  | some i =>
    by_cases hf' : env.fails (w.calls.length + 1) = true
    · obtain ⟨cs, e⟩ := fat32Init_halfway hf0 hp hf'
      rw [e] at h
      cases h
      exact ⟨rfl, Or.inr ⟨i, hf0, rfl, hf', rfl⟩⟩
    · rcases fat32Init_cases env w with ⟨hc, -⟩ | ⟨i', hp', -, -, e⟩
      · simp [hf, hp, hf'] at hc
      · split at e
        · rw [e] at h
          cases h
        · obtain ⟨cs, e⟩ := e
          rw [e] at h
          cases h

theorem mountClean_iff : MountClean env w ↔ NotHalfway env w := by
  constructor
  · intro h i hi hf hp hf'
    obtain ⟨cs, e⟩ := fat32Init_halfway hf hp hf'
    rcases h _ e with ⟨hvol, -⟩ | ⟨hun, -⟩
    · exact mbrVolume_eq_iff.mp hvol
    · exact absurd (hi.symm.trans hun) Bool.true_eq_false.mp
  · intro h w' e
    obtain ⟨hhan, hvol | ⟨i, hf, hp, hf', hvol⟩⟩ := fat32Init_false e
    · exact Or.inl ⟨hvol, hhan⟩
    · cases hi : w.vol.isInitialized with
      | true => exact Or.inl ⟨hvol.trans (mbrVolume_eq_iff.mpr (h i hi hf hp hf')), hhan⟩
      | false =>
        have hun : w'.vol.isInitialized = false := by rw [hvol]; exact hi
        exact Or.inr ⟨hun, closed_of_uninitialized hun⟩

/-- A mount that succeeds takes everything from its card. -/
theorem fat32Init_oneCard (h : fat32Init env w = .ok (true, w')) : OneCard w' := by
  intro _
  rcases fat32Init_cases env w with ⟨-, w1, e⟩ | ⟨i, hp, -, -, e⟩
  · rw [e] at h
    cases h
  · split at e
    · rw [e] at h
      cases h
    · obtain ⟨cs, e⟩ := e
      rw [e] at h
      cases h
      exact ⟨env, w.vol, i, hp, rfl⟩

end

theorem mountStep_oneCard {w w' : World} {l : MountCall} (h1 : OneCard w) (hok : l.NotHalfway w)
    (hs : MountStep w l w') :
    OneCard w' := by
  cases hs with
  | file h =>
    unfold OneCard at h1 ⊢
    rwa [fileStep_vol h]
  | @init env _ _ ok h =>
    cases ok with
    | true => exact fat32Init_oneCard h
    | false =>
      rcases mountClean_iff.mpr hok _ h with ⟨hvol, -⟩ | ⟨hun, -⟩
      · unfold OneCard at h1 ⊢
        rwa [hvol]
      · exact fun hi => absurd (hi.symm.trans hun) Bool.true_eq_false.mp

/-- A failing mount leaves no half-changed volume, whatever was called before, exactly if it does
    not fail at the boot sector of another partition while a volume is mounted. Runs in which no
    mount does so never work on two cards at once. -/
theorem failed_mount_iff (env : Env) (w : World) : (MountClean env w ↔ NotHalfway env w) ∧
    ∀ ls, Run (Guard MountCall.NotHalfway MountStep) World.boot ls w → OneCard w := by
  have hstep : ∀ s l t, OneCard s → Guard MountCall.NotHalfway MountStep s l t → OneCard t :=
    fun s l t h1 hs => mountStep_oneCard h1 hs.1 hs.2
  have hboot : OneCard World.boot := fun hi => absurd hi Bool.false_ne_true
  exact ⟨mountClean_iff, fun ls h => h.invariant hstep hboot⟩

/-- The sample card from the fifth command on: its boot sector cannot be read. -/
def agedCard : Env := failing fun n => decide (4 ≤ n)

/-- With `/A` open, a mount fails at the boot sector of the partition that is mounted: the volume
    and the handle stay. -/
theorem failed_mount_open :
    let w := openOn fun _ => false
    w.vol.isInitialized = true ∧ (w.handles 0).isFree = false ∧ ∃ w', fat32Init agedCard w = .ok (false, w') ∧
      MountClean agedCard w ∧ OneCard w' ∧ w'.vol = w.vol ∧ w'.handles = w.handles := by
  intro w
  have hpart : ∀ i, mbrPartition agedCard = some i → SamePartition agedCard w.vol i := by
    intro i hi
    have h0 : mbrPartition agedCard = some 0 := by decide +kernel
    obtain rfl := Option.some.inj (h0.symm.trans hi)
    exact ⟨by decide +kernel, by decide +kernel⟩
  have hok : NotHalfway agedCard w := fun i _ _ hi _ => hpart i hi
  have hinit : w.vol.isInitialized = true := by decide +kernel
  have hmount : fat32Init (failing fun _ => false) World.boot = .ok (true, mountOn fun _ => false) :=
    answer_some (by decide +kernel)
  have hopen : fat32Open (failing fun _ => false) 9 [0x2F, 0x41] 0 (mountOn fun _ => false) = .ok (0, w) :=
    answer_some (by decide +kernel)
  have hfail : fat32Init agedCard w = .ok (false, after (fat32Init agedCard w)) := answer_some (by decide +kernel)
  have hrun : Run (Guard MountCall.NotHalfway MountStep) World.boot
      [.init (failing fun _ => false) true, .file (failing fun _ => false) (.openFile [0x2F, 0x41] 0 0),
        .init agedCard false] (after (fat32Init agedCard w)) :=
    .cons ⟨fun i hi => absurd hi Bool.false_ne_true, .init hmount⟩
      (.cons ⟨trivial, .file (.openFile hopen)⟩ (.cons ⟨hok, .init hfail⟩ (.nil _)))
  have hclean : MountClean agedCard w := (failed_mount_iff agedCard w).1.mpr hok
  refine ⟨hinit, by decide +kernel, _, hfail, hclean, (failed_mount_iff agedCard _).2 _ hrun, ?_⟩
  rcases hclean _ hfail with h | ⟨h, -⟩
  · exact h
  · have hstill : (after (fat32Init agedCard w)).vol.isInitialized = true := by decide +kernel
    rw [hstill] at h
    cases h

/-! ## Another card -/

/-- A card whose partition starts at block 9, and whose reads fail from the fifth command on. -/
def swappedCard : Env := {
  card [(0, 446, 0x80), (0, 450, 0x0C), (0, 454, 9), (0, 458, 50), (0, 510, 0x55), (0, 511, 0xAA)] with
  fails := fun n => decide (4 ≤ n) }

/-- With `/A` open, a mount of the other card that fails leaves a volume that is mounted and neither
    card's. -/
theorem half_mounted : Run MountStep World.boot
      [.init (failing fun _ => false) true, .file (failing fun _ => false) (.openFile [0x2F, 0x41] 0 0)]
      (openOn fun _ => false) ∧ ¬ MountClean swappedCard (openOn fun _ => false) := by
  constructor
  · have hmount : fat32Init (failing fun _ => false) World.boot = .ok (true, mountOn fun _ => false) :=
      answer_some (by decide +kernel)
    have hopen : fat32Open (failing fun _ => false) 9 [0x2F, 0x41] 0 (mountOn fun _ => false) =
        .ok (0, openOn fun _ => false) := answer_some (by decide +kernel)
    exact .cons (.init hmount) (.cons (.file (.openFile hopen)) (.nil _))
  · rw [mountClean_iff]
    intro h
    have hs := h 0 (by decide +kernel) (by decide +kernel) (by decide +kernel) (by decide +kernel)
    exact absurd hs.2 (by decide +kernel)

end OpenGpos.Fat
