/-
  OpenGpos.Fat.Requests — file calls before they have their answers, one after the other. On a
  mounted volume whose files hold, every SD read they make is inside its block with a length that
  its parameter holds (`mount_inside`, `step_inside`), which is what SD.c can do.
-/
import OpenGpos.Fat.Asking
import OpenGpos.Fat.Bounds

namespace OpenGpos.Fat

open OpenGpos.Lib.Hoare OpenGpos.Lib.Runs

inductive Request where
  | openFile (path : List UInt8) (mode : UInt8)
  | read (id : UInt32) (buffer : Option Buf) (n : UInt32)
  | close (id : UInt32)

namespace Request

def run (env : Env) (fuel : Nat) : Request → FatM Call
  | openFile path mode => do
    let id ← fat32Open env fuel path mode
    return .openFile path mode id
  | read id buffer n => do
    let (ok, buffer') ← fat32Read env id buffer n
    return .read id buffer n ok buffer'
  | close id => do
    let ok ← fat32Close id
    return .close id ok

/-- Below 2^31 bytes. -/
def Small : Request → Prop
  | read _ _ n => n.toNat < 2 ^ 31
  | _ => True

def runAsks (fuel : Nat) : ∀ r : Request, FatAsks fun env => r.run env fuel
  | openFile path mode => (fat32OpenAsks fuel path mode).bind fun _ => .pure _
  | read id buffer n => (fat32ReadAsks id buffer n).bind fun _ => .pure _
  | close id => (fat32CloseAsks id).bind fun _ => .pure _

/-- What returns is a step with its answer. -/
theorem run_step {env : Env} {fuel : Nat} {r : Request} {w w' : World} {l : Call} (h : r.run env fuel w = .ok (l, w')) :
    FileStep env w l w' ∧ (r.Small → l.Small) := by
  cases r with
  | openFile path mode =>
    simp only [run, bind_apply] at h
    cases e : fat32Open env fuel path mode w with
    | error _ => rw [e] at h; cases h
    | ok a =>
      rw [e] at h
      cases h
      exact ⟨.openFile e, fun _ => trivial⟩
  | read id buffer n =>
    simp only [run, bind_apply] at h
    cases e : fat32Read env id buffer n w with
    | error _ => rw [e] at h; cases h
    | ok a =>
      rw [e] at h
      cases h
      exact ⟨.read e, fun h => h⟩
  | close id =>
    simp only [run, bind_apply] at h
    cases e : fat32Close id w with
    | error _ => rw [e] at h; cases h
    | ok a =>
      rw [e] at h
      cases h
      exact ⟨.close e, fun _ => trivial⟩

end Request

def runRequests (env : Env) (fuel : Nat) : List Request → FatM (List Call)
  | [] => return []
  | r :: rs => do
    let l ← r.run env fuel
    let ls ← runRequests env fuel rs
    return l :: ls

def runRequestsAsks (fuel : Nat) : ∀ rs : List Request, FatAsks fun env => runRequests env fuel rs
  | [] => .pure _
  | r :: rs => (r.runAsks fuel).bind fun _ => (runRequestsAsks fuel rs).bind fun _ => .pure _

theorem runRequests_run {env : Env} {fuel : Nat} {rs : List Request} : ∀ {w w' : World} {ls : List Call},
    runRequests env fuel rs w = .ok (ls, w') → (∀ r ∈ rs, r.Small) →
    Run (Guard (fun _ l => l.Small) (FileStep env)) w ls w' := by
  induction rs with
  | nil =>
    intro w w' ls h _
    cases h
    exact .nil w
  | cons r rs ih =>
    intro w w' ls h hs
    simp only [runRequests, bind_apply] at h
    cases e : r.run env fuel w with
    | error _ => rw [e] at h; cases h
    | ok a =>
      rw [e, ok_bind] at h
      cases e' : runRequests env fuel rs a.2 with
      | error _ => rw [e'] at h; cases h
      | ok b =>
        rw [e'] at h
        cases h
        obtain ⟨hstep, hsmall⟩ := Request.run_step e
        exact .cons ⟨hsmall (hs r List.mem_cons_self), hstep⟩ (ih e' fun r' hr' => hs r' (List.mem_cons_of_mem _ hr'))

/-! ## AllInBlock the blocks -/

/-- All SD reads so far were inside their blocks. -/
def AllInBlock (w : World) : Prop := ∀ c ∈ w.calls, c.InBlock

section
variable {env : Env} {v : VolumeInfo} {w w' : World}

theorem AllInBlock.add (h : AllInBlock w) {c : SdCall} (hc : c.InBlock) : AllInBlock { w with calls := c :: w.calls } :=
  List.forall_mem_cons.mpr ⟨hc, h⟩

theorem AllInBlock.append (h : AllInBlock w) {cs : List SdCall} (hcs : ∀ c ∈ cs, c.InBlock)
    (he : w'.calls = cs ++ w.calls) : AllInBlock w' := by
  intro c hc
  rw [he] at hc
  exact (List.mem_append.mp hc).elim (hcs c) (h c)

theorem getFile_inside (hv : v.Sectors) (hs : v.bytesPerSector = 512) (fuel : Nat) (path : List UInt8)
    (file : FileInfo) :
    Triple (fun w => w.vol = v ∧ AllInBlock w) (getFile env fuel path file) fun _ w => w.vol = v ∧ AllInBlock w := by
  have hq : Admits env v fun w => w.vol = v ∧ AllInBlock w := by
    refine ⟨fun _ h => h.1, fun w c hc h => ⟨h.1, h.2.add ?_⟩, fun _ h => h⟩
    cases hc with
    | lookup => exact fatRead_inBlock hs _
    | sector => trivial
  exact (getFile_reach hv hq fuel path file).conseq (fun _ h => h) fun _ _ h => h.1

/-- One SD read that is inside its block. -/
theorem sdRead_inside {call : SdCall} (hc : call.InBlock) (buf : Buf) (dst n : Nat) (data : Nat → UInt8) :
    Triple AllInBlock (sdRead env call buf dst n data) fun _ => AllInBlock := by
  intro w hw a w' e
  simp only [sdRead] at e
  split at e <;> (cases e; exact hw.add hc)

theorem mount_inside : Triple AllInBlock (fat32Init env) fun _ => AllInBlock := by
  have hmbr : Triple AllInBlock (parseMBR env) fun _ => AllInBlock := by
    unfold parseMBR
    refine Triple.bind (sdRead_inside (by decide) _ _ _ _) fun r => ?_
    refine Triple.ite (fun _ => Triple.pure fun _ h => h) fun _ => ?_
    refine Triple.ite (fun _ => Triple.pure fun _ h => h) fun _ => ?_
    split
    · exact Triple.bind (R := fun _ => AllInBlock) (Triple.modify fun _ h => h) fun _ => Triple.pure fun _ h => h
    · exact Triple.pure fun _ h => h
  have hbpb : Triple AllInBlock (parseBPB env) fun _ => AllInBlock := by
    unfold parseBPB
    refine Triple.get_bind fun t ht => ?_
    have hcall : (SdCall.readPartialBlock t.vol.volumeStartLba 0x0B 41).InBlock := ⟨by decide, by decide⟩
    refine Triple.bind ((sdRead_inside hcall _ _ _ _).conseq (fun s hs => hs ▸ ht) fun _ _ h => h) fun r => ?_
    refine Triple.ite (fun _ => Triple.pure fun _ h => h) fun _ => Triple.get_bind fun u hu => ?_
    refine Triple.ite (fun _ => Triple.never fun s _ => ⟨_, rfl⟩) fun _ => ?_
    exact Triple.bind (R := fun _ => AllInBlock) (Triple.modify fun s hs => hs ▸ hu) fun _ => Triple.pure fun _ h => h
  unfold fat32Init
  refine Triple.bind hmbr fun ok => Triple.ite (fun _ => Triple.pure fun _ h => h) fun _ => ?_
  refine Triple.bind hbpb fun ok' => Triple.ite (fun _ => Triple.pure fun _ h => h) fun _ => ?_
  exact Triple.bind (R := fun _ => AllInBlock) (Triple.modify fun _ h => h) fun _ => Triple.pure fun _ h => h

/-- A read of a handle that stands on its file. -/
theorem read_inside (hv : w.vol.WellFormed) {id n : UInt32} {hi : id.toNat < 16} {cs : List UInt32}
    (ho : OnFile env w.vol (w.handles ⟨id.toNat, hi⟩) cs) (hopen : (w.handles ⟨id.toNat, hi⟩).isFree = false)
    (hn : n.toNat < 2 ^ 31) {buf : Buf} {r : Bool × Option Buf} (e : fat32Read env id (some buf) n w = .ok (r, w'))
    (h : AllInBlock w) : AllInBlock w' := by
  have hsmall := ho.holds.small
  have hsub : ((w.handles ⟨id.toNat, hi⟩).fileSize - (w.handles ⟨id.toNat, hi⟩).currentFilePos).toNat =
      (w.handles ⟨id.toNat, hi⟩).fileSize.toNat - (w.handles ⟨id.toNat, hi⟩).currentFilePos.toNat :=
    UInt32.toNat_sub_of_le _ _ (UInt32.le_iff_toNat_le.mpr ho.pos)
  have hactual :=
    min_toNat hn (b := (w.handles ⟨id.toNat, hi⟩).fileSize - (w.handles ⟨id.toNat, hi⟩).currentFilePos) (by omega)
  rw [fat32Read_open hv.initialized hi hopen] at e
  generalize min n ((w.handles ⟨id.toNat, hi⟩).fileSize - (w.handles ⟨id.toNat, hi⟩).currentFilePos) =
      actual at e hactual
  split at e
  · cases e
    exact h
  · obtain ⟨res, buf', w1, cs', e1, hcalls, hin, -⟩ := @readLoop_inBounds env ⟨id.toNat, hi⟩ actual (by omega)
      (actual.toNat + 1) w 0 buf hv.initialized hv.sector (Nat.zero_le _) (Nat.lt_succ_self _)
    rw [e1] at e
    cases e
    exact h.append hin hcalls

theorem step_inside (hv : w.vol.WellFormed) (ho : OnFiles env w) {l : Call} (hsm : l.Small) (hs : FileStep env w l w')
    (h : AllInBlock w) : AllInBlock w' := by
  cases hs with
  | @openFile _ fuel path mode id e =>
    rw [fat32Open_eq] at e
    cases hg : getFile env fuel path default w with
    | error _ => rw [hg] at e; cases e
    | ok r =>
      have hin := (getFile_inside hv.sectors hv.sector fuel path default w ⟨rfl, h⟩ r.1 r.2 hg).2
      rw [hg] at e
      simp only [ok_bind, openResult, Except.ok.injEq] at e
      split at e
      · cases e; exact hin
      · split at e <;> (cases e; exact hin)
  | close e =>
    rcases fat32Close_cases e with ⟨-, -, rfl⟩ | ⟨hi, -, rfl⟩
    · exact h
    · exact h
  | @read _ id n buffer buffer' ok e =>
    by_cases hr : buffer = none ∨ ∀ hi : id.toNat < 16, (w.handles ⟨id.toNat, hi⟩).isFree = true
    · rw [fat32Read_refused env hr] at e
      cases e
      exact h
    · simp only [not_or, not_forall, Bool.not_eq_true] at hr
      obtain ⟨hb, hi, hopen⟩ := hr
      obtain ⟨buf, rfl⟩ := Option.ne_none_iff_exists'.mp hb
      obtain ⟨cs, hcs⟩ := ho ⟨id.toNat, hi⟩ hopen
      exact read_inside hv hcs hopen hsm e h

/-- Where no read fails, no lookup does. -/
theorem lookupsOk {env : Env} (ha : ∀ k, env.fails k = false) (w : World) (l : Call) : LookupsOk env w l := by
  unfold LookupsOk
  split
  · intro hi cs j _ _ _ _ _ _ _ hfail
    rw [ha] at hfail
    cases hfail
  · trivial

/-- What runs on a card that does not fail keep. -/
structure Served (env : Env) (v : VolumeInfo) (w : World) : Prop extends Mounted env v w where
  inside : AllInBlock w

theorem step_served (hv : v.WellFormed) (hf : FilesHold env v) (ha : ∀ k, env.fails k = false) {l : Call}
    (h : Served env v w)
    (hsm : l.Small) (hs : FileStep env w l w') : Served env v w' := by
  obtain ⟨⟨rfl, ho⟩, hin⟩ := h
  obtain ⟨hvol, ho'⟩ := step_onFiles hv hf ho hsm (lookupsOk ha w l) hs
  exact ⟨⟨hvol, ho'⟩, step_inside hv ho hsm hs hin⟩

theorem run_served (hv : v.WellFormed) (hf : FilesHold env v) (ha : ∀ k, env.fails k = false) {ls : List Call}
    (h : Served env v w)
    (hr : Run (Guard (fun _ l => l.Small) (FileStep env)) w ls w') : Served env v w' := by
  have hstep : ∀ w l w', Served env v w → Guard (fun _ l => l.Small) (FileStep env) w l w' → Served env v w' :=
    fun _ _ _ hw hg => step_served hv hf ha hw hg.1 hg.2
  exact hr.invariant hstep h

theorem served_init {w0 : World} (h : fat32Init env w0 = .ok (true, w)) (h0 : AllInBlock w0) : Served env w.vol w :=
  ⟨mounted_init h, mount_inside w0 h0 true w h⟩

end

end OpenGpos.Fat
