/-
  OpenGpos.Fat.Bounds — where `fat32_read` writes. The clamp of `fat32_read` and the one of
  its loop compare signed numbers: with both operands below 2^31 every SD read stays in its
  block and in the bytes asked for (`readLoop_inBounds`), and otherwise the first SD read
  already gets a length of 2^31 or more (`readLoop_overruns`).
-/
import OpenGpos.Fat.Frame
import OpenGpos.Fat.Handles

namespace OpenGpos.Fat

open OpenGpos.Lib.Hoare

/-- A read that stays in its block, with a length that its 16-bit parameter holds. -/
def SdCall.InBlock : SdCall → Prop
  | .readBlock _ => True
  | .readPartialBlock _ offset length => offset.toNat + length.toNat ≤ 512 ∧ length.toNat < 2 ^ 16

instance (c : SdCall) : Decidable c.InBlock := by
  cases c <;> unfold SdCall.InBlock <;> infer_instance

/-- The read of `n` bytes returns; all it changed of the buffer are the bytes asked for, and
    its SD reads stay in their blocks. -/
def InBounds (env : Env) (id n : UInt32) (hi : id.toNat < 16) (buf : Buf) (w : World) : Prop :=
  ∃ ok buf' w' cs, fat32Read env id (some buf) n w = .ok ((ok, some buf'), w') ∧ w'.calls = cs ++ w.calls ∧
    (∀ c ∈ cs, c.InBlock) ∧ ∀ q, (w.handles ⟨id.toNat, hi⟩).wanted n ≤ q → buf' q = buf q

variable {env : Env} {w : World} {i : Slot}

/-! ## One turn -/

/-- The cursor behind a turn that copied `n` bytes and was not the last one, and how many SD commands there
    were then, with `k` before. -/
inductive Onward (env : Env) (v : VolumeInfo) (n : UInt32) (h : FileHandle) (k : Nat) : FileHandle → Nat → Prop
  | within : env.fails k = false → ¬ v.bytesPerCluster ≤ h.currentOffset + n → Onward env v n h k (h.advance n) (k + 1)
  | next {d : UInt32} : env.fails k = false → env.fails (k + 1) = false → v.bytesPerCluster ≤ h.currentOffset + n →
      Links env v h.currentCluster d →
      Onward env v n h k { h.advance n with currentCluster := d, currentOffset := 0 } (k + 2)

/-- The data read of a turn. -/
def FileHandle.dataRead (h : FileHandle) (v : VolumeInfo) (left : UInt32) : SdCall :=
  .readPartialBlock (h.lba v) (h.currentOffset % 512) (h.chunk left)

/-- What a turn does to the buffer and the card, whatever its operands are: its data read,
    and perhaps the lookup of the cluster; then it is the last one or goes on. -/
theorem readLoop_cases (env : Env) (i : Slot) (hi : w.vol.isInitialized = true) (hs : w.vol.bytesPerSector = 512)
    {actual total : UInt32} (hlt : total < actual) (buf : Buf) (fuel : Nat) :
    let h := w.handles i
    let n := h.chunk (actual - total)
    ∃ buf' w' cs, w'.vol = w.vol ∧ w'.calls = cs ++ h.dataRead w.vol (actual - total) :: w.calls ∧
      (∀ x ∈ cs, w.vol.Valid h.currentCluster ∧ x = fatRead w.vol h.currentCluster) ∧
      (∀ q, ¬ (total.toNat ≤ q ∧ q < total.toNat + n.toUInt16.toNat) → buf' q = buf q) ∧
      ((∃ res, readLoop env i actual (fuel + 1) total buf w = .ok ((res, buf'), w')) ∨
        readLoop env i actual (fuel + 1) total buf w = readLoop env i actual fuel (total + n) buf' w' ∧
          Onward env w.vol n h w.calls.length (w'.handles i) w'.calls.length) := by
  intro h n
  have hblit : ∀ f q, ¬ (total.toNat ≤ q ∧ q < total.toNat + n.toUInt16.toNat) →
      blit buf total.toNat n.toUInt16.toNat f q = buf q := fun f q hq => if_neg hq
  have hnil : ∀ x ∈ ([] : List SdCall), w.vol.Valid h.currentCluster ∧ x = fatRead w.vol h.currentCluster :=
    fun x hx => (List.not_mem_nil hx).elim
  have e := @readLoop_turn env i w hs actual total hlt buf fuel
  dsimp only at e
  unfold sdReadPartialBlock at e
  let w0 : World := { w with calls := h.dataRead w.vol (actual - total) :: w.calls }
  by_cases hfail : env.fails w.calls.length = true
  · rw [sdRead_fail hfail] at e
    simp only [ok_bind, if_true] at e
    exact ⟨_, w0, [], rfl, rfl, hnil, hblit _, Or.inl ⟨.readFail, e⟩⟩
  rw [sdRead_ok (by simpa using hfail)] at e
  simp only [ok_bind, Bool.true_eq_false, if_false] at e
  let w1 := w0.setHandle i (h.advance n)
  by_cases hge : w.vol.bytesPerCluster ≤ h.currentOffset + n
  case neg =>
    rw [if_neg hge] at e
    refine ⟨_, w1, [], rfl, rfl, hnil, hblit _, Or.inr ⟨e, ?_⟩⟩
    simp only [w1, World.setHandle, if_true]
    exact .within (by simpa using hfail) hge
  -- the end of a cluster
  rw [if_pos hge] at e
  by_cases hc : w.vol.Valid h.currentCluster
  case neg =>
    have hnext := @getNextCluster_invalid env w1 hi _ hc
    replace e := e.trans (congrArg (fun x => Except.bind x _) hnext)
    exact ⟨_, w1, [], rfl, rfl, hnil, hblit _, Or.inl ⟨.invalidCluster, e⟩⟩
  have hs0 : w1.vol.bytesPerSector ≠ 0 := by
    show w.vol.bytesPerSector ≠ 0
    rw [hs]; decide
  have hnext := @getNextCluster_valid env w1 hi hs0 _ hc
  replace e := e.trans (congrArg (fun x => Except.bind x _) hnext)
  let w2 : World := { w1 with calls := fatRead w.vol h.currentCluster :: w1.calls }
  have hone : ∀ x ∈ [fatRead w.vol h.currentCluster], w.vol.Valid h.currentCluster ∧ x =
      fatRead w.vol h.currentCluster :=
    fun x hx => ⟨hc, List.mem_singleton.mp hx⟩
  simp only [ok_bind] at e
  by_cases hf : env.fails w1.calls.length = true
  · rw [if_pos hf] at e
    simp only [reduceCtorEq, if_false, ne_eq, not_false_eq_true, if_true] at e
    exact ⟨_, w2, [fatRead w.vol h.currentCluster], rfl, rfl, hone, hblit _, Or.inl ⟨.readFail, e⟩⟩
  rw [if_neg hf] at e
  by_cases heoc : (fatResult (fatEntry env w1.vol h.currentCluster)).1 = .endOfChain
  · rw [if_pos heoc] at e
    exact ⟨_, w2, [fatRead w.vol h.currentCluster], rfl, rfl, hone, hblit _, Or.inl ⟨.success, e⟩⟩
  rw [if_neg heoc] at e
  by_cases hsuc : (fatResult (fatEntry env w1.vol h.currentCluster)).1 = .success
  case neg =>
    rw [if_pos hsuc] at e
    exact ⟨_, w2, [fatRead w.vol h.currentCluster], rfl, rfl, hone, hblit _, Or.inl ⟨_, e⟩⟩
  rw [if_neg (not_not.mpr hsuc)] at e
  refine ⟨_, _, [fatRead w.vol h.currentCluster], ?_, ?_, hone, hblit _, Or.inr ⟨e, ?_⟩⟩
  · rfl
  · rfl
  · simp only [World.setHandle, if_true]
    exact .next (by simpa using hfail) (Bool.eq_false_iff.mpr hf) hge ⟨hc, Prod.ext hsuc rfl⟩

/-! ## Small operands -/

/-- The lookup of a cluster: an entry starts at a multiple of 4. -/
theorem fatRead_inBlock {v : VolumeInfo} (hs : v.bytesPerSector = 512) (c : UInt32) : (fatRead v c).InBlock := by
  have h4 : (c * 4).toNat % 512 % 4 = 0 := by
    rw [UInt32.toNat_mul]
    show c.toNat * 4 % 2 ^ 32 % 512 % 4 = 0
    omega
  have hoff : (UInt32.ofNat ((c * 4).toNat % v.bytesPerSector.toNat)).toNat = (c * 4).toNat % 512 := by
    rw [hs, UInt32.toNat_ofNat']
    show (c * 4).toNat % 512 % 2 ^ 32 = _
    omega
  refine ⟨?_, by decide⟩
  rw [hoff]
  show _ + 4 ≤ 512
  omega

theorem offset_toNat (h : FileHandle) : (h.currentOffset % 512).toNat = h.currentOffset.toNat % 512 := by
  rw [UInt32.toNat_mod]; rfl

/-- What is left of the sector. -/
theorem room_toNat (h : FileHandle) : (512 - h.currentOffset % 512).toNat = 512 - h.currentOffset.toNat % 512 := by
  have hmod := offset_toNat h
  have hle : h.currentOffset % 512 ≤ 512 := by
    rw [UInt32.le_iff_toNat_le, hmod]
    show _ ≤ 512
    omega
  rw [UInt32.toNat_sub_of_le _ _ hle, hmod]; rfl

/-- What a turn copies when fewer than 2^31 bytes are left. -/
theorem chunk_toNat (h : FileHandle) {left : UInt32} (hl : left.toNat < 2 ^ 31) :
    (h.chunk left).toNat = Min.min left.toNat (512 - h.currentOffset.toNat % 512) := by
  have hroom := room_toNat h
  rw [FileHandle.chunk, min_toNat hl (by omega), hroom]

theorem readLoop_inBounds {actual : UInt32} (ha : actual.toNat < 2 ^ 31) (fuel : Nat) :
    ∀ (w : World) (total : UInt32) (buf : Buf), w.vol.isInitialized = true → w.vol.bytesPerSector = 512 →
    total.toNat ≤ actual.toNat → actual.toNat - total.toNat < fuel →
    ∃ res buf' w' cs, readLoop env i actual fuel total buf w = .ok ((res, buf'), w') ∧ w'.calls = cs ++ w.calls ∧
      (∀ c ∈ cs, c.InBlock) ∧ ∀ q, actual.toNat ≤ q → buf' q = buf q := by
  induction fuel with
  | zero => intro w total buf _ _ _ hf; omega
  | succ fuel ih =>
    intro w total buf hv hs hle hf
    by_cases hlt : total < actual
    case neg =>
      have e : readLoop env i actual (fuel + 1) total buf w = .ok ((.success, buf), w) := by simp [readLoop, hlt]
      exact ⟨.success, buf, w, [], e, rfl, fun c hc => (List.not_mem_nil hc).elim, fun _ _ => rfl⟩
    have hlt' := UInt32.lt_iff_toNat_lt.mp hlt
    have hactual := actual.toNat_lt
    obtain ⟨buf1, w1, cs, hvol, hcalls, hcs, hbuf, hturn⟩ := readLoop_cases env i hv hs hlt buf fuel
    have hrest : (actual - total).toNat = actual.toNat - total.toNat :=
      UInt32.toNat_sub_of_le _ _ (UInt32.le_iff_toNat_le.mpr hle)
    have hn := @chunk_toNat (w.handles i) (actual - total) (by omega)
    have hmod := offset_toNat (w.handles i)
    have hn16 : ((w.handles i).chunk (actual - total)).toUInt16.toNat = ((w.handles i).chunk (actual - total)).toNat :=
      by
      rw [UInt32.toNat_toUInt16]; omega
    have htot : (total + (w.handles i).chunk (actual - total)).toNat =
      total.toNat + ((w.handles i).chunk (actual - total)).toNat := by
      rw [UInt32.toNat_add]; omega
    have hin : ∀ c ∈ cs ++ [(w.handles i).dataRead w.vol (actual - total)], c.InBlock := by
      intro c hc
      rcases List.mem_append.mp hc with hc | hc
      · rw [(hcs c hc).2]; exact fatRead_inBlock hs _
      · rw [List.mem_singleton.mp hc]
        refine ⟨?_, ?_⟩ <;> omega
    have hout : ∀ q, actual.toNat ≤ q → buf1 q = buf q := fun q hq => hbuf q (by omega)
    rcases hturn with ⟨res, e⟩ | ⟨e, -⟩
    · exact ⟨res, buf1, w1, _, e, by rw [hcalls]; simp, hin, hout⟩
    · obtain ⟨res, buf', w', cs', e', hc', hin', hb'⟩ := ih w1 _ buf1 (hvol ▸ hv) (hvol ▸ hs)
        (by rw [htot]; omega) (by rw [htot]; omega)
      refine ⟨res, buf', w', cs' ++ (cs ++ [(w.handles i).dataRead w.vol (actual - total)]), e.trans e', ?_, ?_, ?_⟩
      · rw [hc', hcalls]; simp
      · exact fun c hc => (List.mem_append.mp hc).elim (hin' c) (hin c)
      · exact fun q hq => (hb' q hq).trans (hout q hq)

/-! ## Large operands -/

theorem toInt32_neg {a : UInt32} (ha : 2 ^ 31 ≤ a.toNat) : a.toInt32.toInt < 0 := by
  show a.toBitVec.toInt < 0
  have hn : a.toBitVec.toNat = a.toNat := rfl
  have hlt := a.toNat_lt
  rw [BitVec.toInt_eq_toNat_cond, hn, if_neg (by omega)]
  omega

theorem min_negative {a b : UInt32} (ha : 2 ^ 31 ≤ a.toNat) (hb : b.toNat < 2 ^ 31) : min a b = a := by
  have hneg := toInt32_neg ha
  have hnat := toInt32_toInt hb
  have hlt : a.toInt32 < b.toInt32 := by
    rw [Int32.lt_iff_toInt_lt]
    omega
  exact if_pos hlt

/-- A number of 2^31 or more is negative to `min`. -/
theorem min_large {a b : UInt32} (h : 2 ^ 31 ≤ a.toNat ∨ 2 ^ 31 ≤ b.toNat) : 2 ^ 31 ≤ (min a b).toNat := by
  unfold min
  by_cases ha : 2 ^ 31 ≤ a.toNat
  · by_cases hb : 2 ^ 31 ≤ b.toNat
    · split <;> assumption
    · have hmin := min_negative ha (Nat.lt_of_not_le hb)
      unfold min at hmin
      rw [hmin]
      exact ha
  · have hb := h.resolve_left ha
    have hnlt : ¬ a.toInt32 < b.toInt32 := by
      have hneg := toInt32_neg hb
      have hnat := toInt32_toInt (a := a) (by omega)
      rw [Int32.lt_iff_toInt_lt]
      omega
    rw [if_neg hnlt]
    exact hb

/-- The SD reads are only ever added to. -/
theorem readLoop_grows (env : Env) (i : Slot) (actual : UInt32) (l : List SdCall) (fuel : Nat) :
    ∀ (total : UInt32) (buf : Buf),
    Triple (fun w => l <:+ w.calls) (readLoop env i actual fuel total buf) fun _ w => l <:+ w.calls := by
  have hP : Steady fun w => l <:+ w.calls := ⟨fun w c h => h.trans (List.suffix_cons c w.calls)⟩
  exact readLoop_keeps env hP (Q := fun _ => True) (fun _ _ => trivial) (fun _ _ h _ => h)
      (fun _ _ _ _ h => h) actual fuel

/-- With 2^31 or more bytes to read, the first length is that large. -/
theorem readLoop_overruns (hv : w.vol.isInitialized = true) (hs : w.vol.bytesPerSector = 512) {actual : UInt32}
    (ha : 2 ^ 31 ≤ actual.toNat) {fuel : Nat} {buf : Buf} {r : FatError × Buf} {w' : World} {cs : List SdCall}
    (h : readLoop env i actual fuel 0 buf w = .ok (r, w')) (hc : w'.calls = cs ++ w.calls) : ∃ c ∈ cs, ¬ c.InBlock := by
  cases fuel with
  | zero => cases h
  | succ fuel =>
    have hlt : 0 < actual := UInt32.lt_iff_toNat_lt.mpr (by show 0 < _; omega)
    obtain ⟨buf1, w1, cs1, -, hcalls, -, -, hturn⟩ := readLoop_cases env i hv hs hlt buf fuel
    let call := (w.handles i).dataRead w.vol (actual - 0)
    have hbad : ¬ call.InBlock := by
      rintro ⟨-, hlen⟩
      have hz : actual - 0 = actual := by simp
      have : 2 ^ 31 ≤ ((w.handles i).chunk (actual - 0)).toNat := by
        rw [hz]; exact min_large (Or.inl ha)
      omega
    have hsuf : w1.calls <:+ w'.calls := by
      rcases hturn with ⟨res, e⟩ | ⟨e, -⟩
      · rw [e] at h
        cases h; exact List.suffix_rfl
      · rw [e] at h
        exact readLoop_grows env i actual w1.calls fuel _ _ w1 List.suffix_rfl _ _ h
    obtain ⟨pre, hpre⟩ := hsuf
    refine ⟨call, ?_, hbad⟩
    have : cs ++ w.calls = (pre ++ (cs1 ++ [call])) ++ w.calls := by
      rw [← hc, ← hpre, hcalls]; simp [call]
    rw [List.append_cancel_right this]
    simp

/-! ## fat32_read -/

theorem read_overruns {id n : UInt32} (hi : id.toNat < 16) (hv : w.vol.isInitialized = true)
    (hs : w.vol.bytesPerSector = 512) (hopen : (w.handles ⟨id.toNat, hi⟩).isFree = false)
    (hlarge : 2 ^ 31 ≤ n.toNat ∨
      2 ^ 31 ≤ ((w.handles ⟨id.toNat, hi⟩).fileSize - (w.handles ⟨id.toNat, hi⟩).currentFilePos).toNat) (buf : Buf) :
    ¬ InBounds env id n hi buf w := by
  rintro ⟨ok, buf', w', cs, hr, hc, hin, -⟩
  let h := w.handles ⟨id.toNat, hi⟩
  let actual := min n (h.fileSize - h.currentFilePos)
  have ha : 2 ^ 31 ≤ actual.toNat := min_large hlarge
  have h0 : ¬ actual = 0 := by
    intro h0
    rw [h0] at ha
    exact absurd ha (by decide)
  have e : fat32Read env id (some buf) n w = if actual = 0 then .ok ((true, some buf), w)
      else (readLoop env ⟨id.toNat, hi⟩ actual (actual.toNat + 1) 0 buf w).bind fun r =>
        .ok ((r.1.1 == .success, some r.1.2), r.2) := fat32Read_open hv hi hopen buf n
  rw [e, if_neg h0] at hr
  cases hl : readLoop env ⟨id.toNat, hi⟩ actual (actual.toNat + 1) 0 buf w with
  | error _ => rw [hl] at hr; cases hr
  | ok r =>
    rw [hl] at hr
    cases hr
    obtain ⟨c, hmem, hbad⟩ := readLoop_overruns hv hs ha hl hc
    exact hbad (hin c hmem)

/-- A read of an open handle stays in the caller's buffer and in the blocks of the card
    exactly if both operands of the clamp are below 2^31. -/
theorem read_inBounds_iff {id n : UInt32} (hi : id.toNat < 16) (hv : w.vol.isInitialized = true)
    (hs : w.vol.bytesPerSector = 512) (hopen : (w.handles ⟨id.toNat, hi⟩).isFree = false)
    (hpos : (w.handles ⟨id.toNat, hi⟩).currentFilePos.toNat ≤ (w.handles ⟨id.toNat, hi⟩).fileSize.toNat) (buf : Buf) :
    InBounds env id n hi buf w ↔ n.toNat < 2 ^ 31 ∧
      (w.handles ⟨id.toNat, hi⟩).fileSize.toNat - (w.handles ⟨id.toNat, hi⟩).currentFilePos.toNat < 2 ^ 31 := by
  let h := w.handles ⟨id.toNat, hi⟩
  have hsub : (h.fileSize - h.currentFilePos).toNat = h.fileSize.toNat - h.currentFilePos.toNat :=
    UInt32.toNat_sub_of_le _ _ (UInt32.le_iff_toNat_le.mpr hpos)
  constructor
  · intro hin
    by_contra hn
    refine read_overruns hi hv hs hopen ?_ buf hin
    rw [hsub]
    show _ ∨ 2 ^ 31 ≤ (w.handles ⟨id.toNat, hi⟩).fileSize.toNat - (w.handles ⟨id.toNat, hi⟩).currentFilePos.toNat
    omega
  · rintro ⟨hn, hrem⟩
    let actual := min n (h.fileSize - h.currentFilePos)
    have ha : actual.toNat = h.wanted n := by
      have := min_toNat hn (b := h.fileSize - h.currentFilePos) (by rw [hsub]; exact hrem)
      rw [hsub] at this
      exact this
    have e : fat32Read env id (some buf) n w = if actual = 0 then .ok ((true, some buf), w)
        else (readLoop env ⟨id.toNat, hi⟩ actual (actual.toNat + 1) 0 buf w).bind fun r =>
          .ok ((r.1.1 == .success, some r.1.2), r.2) := fat32Read_open hv hi hopen buf n
    by_cases h0 : actual = 0
    · rw [if_pos h0] at e
      exact ⟨true, buf, w, [], e, rfl, fun c hc => (List.not_mem_nil hc).elim, fun _ _ => rfl⟩
    rw [if_neg h0] at e
    have hwn : h.wanted n ≤ n.toNat := Nat.min_le_left _ _
    obtain ⟨res, buf', w', cs, hl, hc, hin, hb⟩ := @readLoop_inBounds env ⟨id.toNat, hi⟩ actual
      (by omega) (actual.toNat + 1) w 0 buf hv hs (Nat.zero_le _) (by omega)
    rw [hl] at e
    refine ⟨_, buf', w', cs, e, hc, hin, fun q hq => hb q ?_⟩
    rw [ha]
    exact hq

/-- The 600 bytes of `/A`. -/
theorem read_inBounds_iff_sample : InBounds (failing fun _ => false) 0 600 (by decide) (fun _ => 0)
    (openOn fun _ => false) := by
  have hv : (openOn fun _ => false).vol = sampleVolume := by decide +kernel
  have hh : (openOn fun _ => false).handles 0 = openHandle ⟨fun _ => 0, 3, 600, 0, false⟩ 0 := by decide +kernel
  refine (@read_inBounds_iff (failing fun _ => false) (openOn fun _ => false) 0 600 (by decide) (by rw [hv]; rfl)
      (by rw [hv]; rfl)
    ?_ ?_ fun _ => 0).mpr ⟨by decide, ?_⟩
  all_goals
    rw [show (⟨(0 : UInt32).toNat, _⟩ : Slot) = 0 from rfl, hh]
    decide

/-- The sample card with 2^32 - 1 as the size of `/A`. -/
def longCard : Env := card [
  (0, 446, 0x80), (0, 450, 0x0C), (0, 454, 1), (0, 458, 100), (0, 510, 0x55), (0, 511, 0xAA),
  (1, 0x0C, 2), (1, 0x0D, 1), (1, 0x0E, 1), (1, 0x10, 1), (1, 36, 1), (1, 44, 2),
  (2, 8, 0xF8), (2, 9, 0xFF), (2, 10, 0xFF), (2, 11, 0x0F), (2, 12, 5),
  (2, 20, 0xF8), (2, 21, 0xFF), (2, 22, 0xFF), (2, 23, 0x0F),
  (3, 0, 0x41), (3, 1, 0x20), (3, 8, 0x20), (3, 26, 3), (3, 28, 0xFF), (3, 29, 0xFF), (3, 30, 0xFF), (3, 31, 0xFF)]

/-- Mounted and `/A` opened, a read of 16 bytes overruns. -/
theorem short_read_overruns : ∃ w w', fat32Init longCard World.boot = .ok (true, w) ∧
    fat32Open longCard 9 [0x2F, 0x41] 0 w = .ok (0, w') ∧ (w'.handles 0).isFree = false ∧
    (w'.handles 0).currentFilePos = 0 ∧ (w'.handles 0).fileSize = 0xFFFFFFFF ∧
    ∀ buf, ¬ InBounds longCard 0 16 (by decide) buf w' := by
  let w := after (fat32Init longCard World.boot)
  let w' := after (fat32Open longCard 9 [0x2F, 0x41] 0 w)
  have h0 : answer (fat32Init longCard World.boot) = some true := by decide +kernel
  have h1 : answer (fat32Open longCard 9 [0x2F, 0x41] 0 w) = some 0 := by decide +kernel
  have hv : w'.vol = sampleVolume := by decide +kernel
  have hh : w'.handles 0 = openHandle ⟨fun _ => 0, 3, 0xFFFFFFFF, 0, false⟩ 0 := by decide +kernel
  refine ⟨w, w', answer_some h0, answer_some h1, by rw [hh]; rfl, by rw [hh]; rfl, by rw [hh]; rfl, ?_⟩
  refine @read_overruns longCard w' 0 16 (by decide) (by rw [hv]; rfl) (by rw [hv]; rfl) ?_ ?_
  all_goals
    rw [show (⟨(0 : UInt32).toNat, _⟩ : Slot) = 0 from rfl, hh]
    decide

end OpenGpos.Fat
