/-
  OpenGpos.Fat.Stream — what the file calls are for. On a card that never fails the handle
  table is a table of streams (`Refines`): a handle is its file's bytes, split where the
  file position is. `step_refines` is the step of the simulation; `file_streams` is about
  every run of calls from the mount on.
-/
import OpenGpos.Fat.Handles
import OpenGpos.Lib.Streams

namespace OpenGpos.Fat

open OpenGpos.Lib.Runs OpenGpos.Lib.Streams

/-- The `size` bytes of a file. -/
def fileBytes (env : Env) (v : VolumeInfo) (cs : List UInt32) (size : Nat) : List UInt8 :=
  (List.range size).map (chainByte env v cs)

/-- `content` is what the file at `path` holds. -/
def Names (env : Env) (v : VolumeInfo) (path content : List UInt8) : Prop :=
  ∃ file cs, Found env v path file ∧ Holds env v file.firstCluster file.fileSize.toNat cs ∧
    content = fileBytes env v cs file.fileSize.toNat

/-- `data` over the start of a buffer. -/
def overlay (buf : Buf) (data : List UInt8) : Buf := fun q => data.getD q (buf q)

/-- A call with its answer, as an event of the streams. -/
inductive Shows : Call → Event Slot (List UInt8) UInt8 → Prop
  | opened {path : List UInt8} {mode : UInt8} (i : Slot) :
      Shows (.openFile path mode (UInt32.ofNat i)) (.opened path (some i))
  | notOpened {path : List UInt8} {mode : UInt8} : Shows (.openFile path mode noFile) (.opened path none)
  | read {id n : UInt32} {buf : Buf} {data : List UInt8} (hi : id.toNat < 16) :
      Shows (.read id (some buf) n true (some (overlay buf data))) (.read ⟨id.toNat, hi⟩ n.toNat data)
  | noBuffer {id n : UInt32} : Shows (.read id none n false none) (.refused none)
  | noSlot {id n : UInt32} {buffer : Option Buf} : 16 ≤ id.toNat → Shows (.read id buffer n false buffer) (.refused none)
  | notOpen {id n : UInt32} {buf : Buf} (hi : id.toNat < 16) :
      Shows (.read id (some buf) n false (some buf)) (.refused (some ⟨id.toNat, hi⟩))
  | closed {id : UInt32} (hi : id.toNat < 16) : Shows (.close id true) (.closed ⟨id.toNat, hi⟩)
  | notClosed {id : UInt32} : 16 ≤ id.toNat → Shows (.close id false) (.refused none)

/-- A handle and the stream it is. -/
inductive IsStream (env : Env) (v : VolumeInfo) (h : FileHandle) : Option (Stream UInt8) → Prop
  | free : h.isFree = true → IsStream env v h none
  | on {cs : List UInt32} {s : Stream UInt8} : h.isFree = false → OnFile env v h cs →
      s.content = fileBytes env v cs h.fileSize.toNat → s.delivered.length = h.currentFilePos.toNat →
      IsStream env v h (some s)

structure Refines (env : Env) (v : VolumeInfo) (w : World) (t : Table Slot UInt8) : Prop where
  vol : w.vol = v
  slot : ∀ i, IsStream env v (w.handles i) (t i)

/-! ## One read -/

section
variable {env : Env} {v : VolumeInfo} {w : World} {cs : List UInt32}

theorem Delivered.overlay {p size n : Nat} {buf buf' : Buf} (hd : Delivered env v cs p 0 (Min.min n (size - p)) buf buf') :
    buf' = overlay buf (((fileBytes env v cs size).drop p).take n) := by
  funext q
  rw [hd q, OpenGpos.Fat.overlay, List.getD_eq_getElem?_getD]
  by_cases hq : q < n ∧ p + q < size
  · rw [if_pos (by omega), List.getElem?_take_of_lt hq.1, List.getElem?_drop, fileBytes, List.getElem?_map,
      List.getElem?_range hq.2]
    rfl
  · rw [if_neg (by omega), List.getElem?_eq_none]
    · rfl
    · simp only [fileBytes, List.length_take, List.length_drop, List.length_map, List.length_range]
      omega

/-- A read that no SD command fails. -/
theorem fat32Read_exact (hv : w.vol.WellFormed) (ha : ∀ k, env.fails k = false) {id n : UInt32} (hi : id.toNat < 16)
    (buf : Buf) (ho : OnFile env w.vol (w.handles ⟨id.toNat, hi⟩) cs)
    (hopen : (w.handles ⟨id.toNat, hi⟩).isFree = false) (hn : n.toNat < 2 ^ 31) :
    let h := w.handles ⟨id.toNat, hi⟩
    ∃ w', fat32Read env id (some buf) n w = .ok ((true, some (overlay buf
        (((fileBytes env w.vol cs h.fileSize.toNat).drop h.currentFilePos.toNat).take n.toNat))), w') ∧
      Moves ⟨id.toNat, hi⟩ w w' ∧
      (w'.handles ⟨id.toNat, hi⟩).currentFilePos.toNat = h.currentFilePos.toNat + h.wanted n ∧
      OnFile env w.vol (w'.handles ⟨id.toNat, hi⟩) cs := by
  intro h
  obtain ⟨res, m, buf', w', e, hmv, hp, hout, hd⟩ := fat32Read_spec hv hi buf ho hopen hn
  have hafter := ho.after hmv.clusterStart hmv.fileSize hp hout fun j _ _ _ hf => by rw [ha] at hf; cases hf
  cases hout with
  | all _ =>
    refine ⟨w', ?_, hmv, hp, hafter⟩
    rw [e, (hd rfl).overlay]; rfl
  | stopped hk _ _ =>
    obtain ⟨k, _, hf⟩ := hk
    rw [ha] at hf; cases hf
  | between _ _ _ _ hf _ => rw [ha] at hf; cases hf

end

/-! ## The simulation -/

section
variable {env : Env} {v : VolumeInfo} {w w' : World} {t : Table Slot UInt8}

/-- Another slot's stream does not notice. -/
theorem Refines.set (hr : Refines env v w t) (hvol : w'.vol = w.vol) {i : Slot} {o : Option (Stream UInt8)}
    (hother : ∀ j, j ≠ i → w'.handles j = w.handles j) (hi : IsStream env v (w'.handles i) o) :
    Refines env v w' (Function.update t i o) := by
  refine ⟨hvol.trans hr.vol, fun j => ?_⟩
  by_cases hj : j = i
  · subst hj; rw [Function.update_self]; exact hi
  · rw [Function.update_of_ne hj, hother j hj]; exact hr.slot j

theorem Refines.free (hr : Refines env v w t) {i : Slot} (hf : (w.handles i).isFree = true) : t i = none := by
  have hs := hr.slot i
  cases ht : t i with
  | none => rfl
  | some s =>
    rw [ht] at hs
    cases hs with
    | on hopen => rw [hf] at hopen; cases hopen

/-- A handle that was just opened is at the start of its file. -/
theorem Holds.isStream {file : FileInfo} {mode : UInt8} {cs : List UInt32}
    (hh : Holds env v file.firstCluster file.fileSize.toNat cs) :
    IsStream env v (openHandle file mode) (some ⟨[], fileBytes env v cs file.fileSize.toNat⟩) :=
  .on rfl hh.opened rfl rfl

/-- Taking from the stream is what the read does. -/
theorem IsStream.take {h h' : FileHandle} {s : Stream UInt8} {cs : List UInt32} {n : UInt32}
    (hc : s.content = fileBytes env v cs h.fileSize.toNat) (hl : s.delivered.length = h.currentFilePos.toNat)
    (hfree : h'.isFree = false) (hsize : h'.fileSize = h.fileSize)
    (hp : h'.currentFilePos.toNat = h.currentFilePos.toNat + h.wanted n) (ho : OnFile env v h' cs) :
    IsStream env v h' (some (s.take n.toNat)) := by
  refine .on hfree ho (by rw [Stream.take_content, hc, hsize]) ?_
  have hlen : s.delivered.length + s.rest.length = h.fileSize.toNat := by
    rw [← List.length_append, show s.delivered ++ s.rest = _ from hc, fileBytes, List.length_map, List.length_range]
  have hw : h.wanted n = Min.min n.toNat (h.fileSize.toNat - h.currentFilePos.toNat) := rfl
  simp only [Stream.take, List.length_append, List.length_take]
  omega

theorem rest_eq {s : Stream UInt8} {h : FileHandle} {cs : List UInt32} (hc : s.content = fileBytes env v cs h.fileSize.toNat)
    (hl : s.delivered.length = h.currentFilePos.toNat) :
    s.rest = (fileBytes env v cs h.fileSize.toNat).drop h.currentFilePos.toNat := by
  rw [← hc, ← hl, Stream.content, List.drop_left]

/-- Every call is a step of the streams. -/
theorem step_refines (hv : v.WellFormed) (hf : FilesHold env v) (ha : ∀ k, env.fails k = false) {l : Call}
    (hr : Refines env v w t) (hsm : l.Small) (hs : FileStep env w l w') :
    ∃ t', (∃ e, Shows l e ∧ Step (Names env v) t e t') ∧ Refines env v w' t' := by
  have hvol := hr.vol
  cases hs with
  | @openFile _ fuel path mode id e =>
    obtain ⟨hvol', ⟨rfl, hh⟩ | ⟨i, file, hfound, hfree, rfl, hh⟩⟩ := fat32Open_cases e
    · exact ⟨t, ⟨_, .notOpened, .notOpened⟩, hvol'.trans hvol, fun i => by rw [hh]; exact hr.slot i⟩
    · rw [hvol] at hfound
      obtain ⟨cs, hcs⟩ := hf path file hfound
      refine ⟨_, ⟨_, .opened i, .opened (hr.free hfree) ⟨file, cs, hfound, hcs, rfl⟩⟩, ?_⟩
      apply hr.set hvol'
      · intro j hj
        rw [hh]; simp [hj]
      · rw [hh]
        simp only [if_true]
        exact hcs.isStream
  | @close _ id ok e =>
    rcases fat32Close_cases e with ⟨hi, rfl, rfl⟩ | ⟨hi, rfl, rfl⟩
    · exact ⟨t, ⟨_, .notClosed hi, .refused fun _ h => by cases h⟩, hr⟩
    · refine ⟨_, ⟨_, .closed hi, .closed⟩, ?_⟩
      apply hr.set
      · rfl
      · intro j hj
        simp [hj]
      · exact .free (by simp)
  | @read _ id n buffer buffer' ok e =>
    by_cases hi : id.toNat < 16
    case neg =>
      rw [fat32Read_refused env (Or.inr fun h => absurd h hi)] at e
      cases e
      exact ⟨t, ⟨_, .noSlot (by omega), .refused fun _ h => by cases h⟩, hr⟩
    case pos =>
      cases buffer with
      | none =>
        rw [fat32Read_refused env (Or.inl rfl)] at e
        cases e
        exact ⟨t, ⟨_, .noBuffer, .refused fun _ h => by cases h⟩, hr⟩
      | some buf =>
        have hslot := hr.slot ⟨id.toNat, hi⟩
        cases ht : t ⟨id.toNat, hi⟩ with
        | none =>
          rw [ht] at hslot
          cases hslot with
          | free hfree =>
            rw [fat32Read_refused env (Or.inr fun _ => hfree)] at e
            cases e
            exact ⟨t, ⟨_, .notOpen hi, .refused fun j h => by cases h; exact ht⟩, hr⟩
        | some s =>
          rw [ht] at hslot
          cases hslot with
          | on hopen ho hc hl =>
            rw [← hvol] at hv ho
            obtain ⟨w1, e1, hmv, hp, ho'⟩ := fat32Read_exact hv ha hi buf ho hopen hsm
            rw [e1, hvol, ← rest_eq hc hl] at e
            cases e
            rw [hvol] at ho'
            refine ⟨_, ⟨_, .read hi, .read ht⟩, hr.set hmv.vol hmv.others ?_⟩
            exact IsStream.take hc hl (hmv.isFree.trans hopen) hmv.fileSize hp ho'

theorem run_refines (hv : v.WellFormed) (hf : FilesHold env v) (ha : ∀ k, env.fails k = false) {ls : List Call}
    (hr : Refines env v w t) (h : Run (Guard (fun _ l => l.Small) (FileStep env)) w ls w') :
    ∃ es t', List.Forall₂ Shows ls es ∧ Run (Step (Names env v)) t es t' ∧ Refines env v w' t' := by
  have hstep : ∀ s l s' t, Refines env v s t → Guard (fun _ l => l.Small) (FileStep env) s l s' →
      ∃ t', (∃ e, Shows l e ∧ Step (Names env v) t e t') ∧ Refines env v s' t' :=
    fun _ _ _ _ hr hg => step_refines hv hf ha hr hg.1 hg.2
  obtain ⟨t', hrun, hr'⟩ := h.simulate hstep t hr
  obtain ⟨es, hes, hrun⟩ := hrun.relabel
  exact ⟨es, t', hes, hrun, hr'⟩

theorem refines_init {w0 : World} (h : fat32Init env w0 = .ok (true, w)) : Refines env w.vol w fun _ => none :=
  ⟨rfl, fun i => .free ((fat32Init_ok h).2.2 i)⟩

end

/-! ## Runs -/

/-- Every run of opens, reads and closes from the mount on, on a card that never fails, is a
    run of streams with the same answers: what a handle's reads gave since it was opened is
    a prefix of its file, and a handle that is open is not given out again. In the state
    that is reached a read of an open handle returns true with exactly the next bytes of
    its file, and moves that handle's position only. -/
theorem file_streams {env : Env} {w0 w w' : World} {ls : List Call} (h : fat32Init env w0 = .ok (true, w))
    (hs : w.vol.bytesPerSector = 512) (hc : w.vol.sectorsPerCluster ≠ 0)
    (hn : w.vol.totalClusters.toNat + 2 ≤ 0x0FFFFFF7) (hf : FilesHold env w.vol) (ha : ∀ k, env.fails k = false)
    (hr : Run (Guard (fun _ l => l.Small) (FileStep env)) w ls w') :
    (∃ es t, List.Forall₂ Shows ls es ∧ Run (Step (Names env w.vol)) (fun _ => none) es t ∧ Refines env w.vol w' t ∧
      (∀ i s, t i = some s → ∃ a b path, es = a ++ .opened path (some i) :: b ∧ Stays i b ∧
        Names env w.vol path (received i b ++ s.rest)) ∧
      ∀ a b c path path' i, es = a ++ .opened path (some i) :: (b ++ .opened path' (some i) :: c) → .closed i ∈ b) ∧
    ∀ (id n : UInt32) (hi : id.toNat < 16) (buf : Buf), n.toNat < 2 ^ 31 →
      (w'.handles ⟨id.toNat, hi⟩).isFree = false →
      let h := w'.handles ⟨id.toNat, hi⟩
      ∃ cs w'', FileChain env w.vol h.clusterStart cs ∧
        fat32Read env id (some buf) n w' = .ok ((true, some (overlay buf
          (((fileBytes env w.vol cs h.fileSize.toNat).drop h.currentFilePos.toNat).take n.toNat))), w'') ∧
        Moves ⟨id.toNat, hi⟩ w' w'' ∧
        (w''.handles ⟨id.toNat, hi⟩).currentFilePos.toNat = h.currentFilePos.toNat + h.wanted n := by
  have hv := mounted_wellFormed h hs hc hn
  obtain ⟨es, t, hes, hrun, href⟩ := run_refines hv hf ha (refines_init h) hr
  refine ⟨⟨es, t, hes, hrun, href, fun i s hi => run_prefix hrun hi, ?_⟩, ?_⟩
  · intro a b c path path' i he
    subst he
    exact reopened_after_close hrun
  · intro id n hi buf hsm hopen
    have hslot := href.slot ⟨id.toNat, hi⟩
    have hvol := href.vol
    cases ht : t ⟨id.toNat, hi⟩ with
    | none =>
      rw [ht] at hslot
      cases hslot with
      | free hfree => rw [hopen] at hfree; cases hfree
    | some s =>
      rw [ht] at hslot
      cases hslot with
      | @on cs _ _ ho _ _ =>
        rw [← hvol] at hv ho
        obtain ⟨w'', e, hmv, hp, -⟩ := fat32Read_exact hv ha hi buf ho hopen hsm
        rw [hvol] at ho e
        exact ⟨cs, w'', ho.holds.chain, e, hmv, hp⟩

/-- `/A` opened and read whole, over both of its clusters. -/
theorem file_streams_sample : ∃ cs w'', FileChain (failing fun _ => false) sampleVolume 3 cs ∧
    fat32Read (failing fun _ => false) 0 (some fun _ => 0) 600 (openOn fun _ => false) =
      .ok ((true, some (overlay (fun _ => 0) (((fileBytes (failing fun _ => false) sampleVolume cs 600).drop 0).take 600))),
        w'') ∧
    (w''.handles 0).currentFilePos.toNat = 600 := by
  have h0 : answer (fat32Init (failing fun _ => false) World.boot) = some true := by decide +kernel
  have hvol : (mountOn fun _ => false).vol = sampleVolume := by decide +kernel
  have h1 : answer (fat32Open (failing fun _ => false) 9 [0x2F, 0x41] 0 (mountOn fun _ => false)) = some 0 := by
    decide +kernel
  have hh : (openOn fun _ => false).handles 0 = openHandle ⟨fun _ => 0, 3, 600, 0, false⟩ 0 := by decide +kernel
  have hrun : Run (Guard (fun _ l => l.Small) (FileStep (failing fun _ => false))) (mountOn fun _ => false)
      [.openFile [0x2F, 0x41] 0 0] (openOn fun _ => false) := .cons ⟨trivial, .openFile (answer_some h1)⟩ (.nil _)
  have hvol' : (after (fat32Init (failing fun _ => false) World.boot)).vol = sampleVolume := hvol
  obtain ⟨-, key⟩ := file_streams (answer_some h0) (by rw [hvol']; rfl) (by rw [hvol']; decide) (by rw [hvol']; decide)
    (by rw [hvol']; exact sample_filesHold _) (fun _ => rfl) hrun
  obtain ⟨cs, w'', hch, e, -, hp⟩ := key 0 600 (by decide) (fun _ => 0) (by decide) (congrArg FileHandle.isFree hh)
  have hid : (⟨(0 : UInt32).toNat, by decide⟩ : Slot) = 0 := rfl
  rw [hvol', hid, hh] at hch e
  rw [hid, hh] at hp
  exact ⟨cs, w'', hch, e, hp⟩

end OpenGpos.Fat
