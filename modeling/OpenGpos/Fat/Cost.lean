/-
  OpenGpos.Fat.Cost — how many SD reads the reads of files take. A read of `n` bytes at byte `p` takes
  one for each sector it touches and one for each end of a cluster it comes to, exactly
  (`fat32Read_cost`). Bytes that are read in pieces take at most one more for each piece, whatever the
  handles and the order in which they are read (`reads_cost`).
-/
import OpenGpos.Fat.Isolation

namespace OpenGpos.Fat

open OpenGpos.Lib.Runs

/-! ## The cost of a stretch of a file -/

/-- The sectors that `[p, p + n)` touches, and the ends of clusters in it. -/
def readCost (v : VolumeInfo) (p n : Nat) : Nat :=
  if n = 0 then 0 else (p + n + 511) / 512 - p / 512 + ((p + n) / v.bpc - p / v.bpc)

section
variable {v : VolumeInfo} {p n k m : Nat}

@[simp] theorem readCost_zero (v : VolumeInfo) (p : Nat) : readCost v p 0 = 0 := if_pos rfl

theorem readCost_pos (hn : 0 < n) : readCost v p n = (p + n + 511) / 512 - p / 512 + ((p + n) / v.bpc - p / v.bpc) :=
  if_neg (by omega)

/-- A turn that stays in its cluster. -/
theorem readCost_sector (hb : 0 < v.bpc) (hk : 0 < k) (hn : k = Min.min n (512 - p % 512))
    (hin : p % v.bpc + k < v.bpc) :
    readCost v p n = 1 + readCost v (p + k) (n - k) := by
  have hdiv := (add_in_cluster hb hin).1
  rw [readCost_pos (by omega)]
  by_cases hall : n = k
  · subst hall
    rw [Nat.sub_self, hdiv, readCost_zero]
    omega
  · have hmono : (p + k) / v.bpc ≤ (p + n) / v.bpc := Nat.div_le_div_right (by omega)
    rw [readCost_pos (by omega), show p + k + (n - k) = p + n by omega, hdiv]
    omega

/-- A turn that comes to the end of its cluster. -/
theorem readCost_cluster (hb : 0 < v.bpc) (hk : 0 < k) (hn : k = Min.min n (512 - p % 512))
    (hend : p + k = (p / v.bpc + 1) * v.bpc) : readCost v p n = 2 + readCost v (p + k) (n - k) := by
  have hdiv : (p + k) / v.bpc = p / v.bpc + 1 := by rw [hend, Nat.mul_div_cancel _ hb]
  rw [readCost_pos (by omega)]
  by_cases hall : n = k
  · subst hall
    rw [Nat.sub_self, hdiv, readCost_zero]
    omega
  · have hmono : (p + k) / v.bpc ≤ (p + n) / v.bpc := Nat.div_le_div_right (by omega)
    rw [readCost_pos (by omega), show p + k + (n - k) = p + n by omega]
    omega

/-- Two pieces touch at most one sector twice. -/
theorem readCost_split (v : VolumeInfo) (p n m : Nat) : readCost v p (n + m) ≤ readCost v p n + readCost v (p + n) m ∧
    readCost v p n + readCost v (p + n) m ≤ readCost v p (n + m) + 1 := by
  by_cases hn : n = 0
  · rw [hn, readCost_zero, Nat.zero_add, Nat.add_zero, Nat.zero_add]
    exact ⟨Nat.le_refl _, Nat.le_succ _⟩
  by_cases hm : m = 0
  · rw [hm, readCost_zero, Nat.add_zero, Nat.add_zero]
    exact ⟨Nat.le_refl _, Nat.le_succ _⟩
  · have h1 : p / v.bpc ≤ (p + n) / v.bpc := Nat.div_le_div_right (by omega)
    have h2 : (p + n) / v.bpc ≤ (p + (n + m)) / v.bpc := Nat.div_le_div_right (by omega)
    rw [readCost_pos (by omega), readCost_pos (by omega), readCost_pos (by omega), show p + n + m =
      p + (n + m) by omega]
    omega

end

/-! ## One read -/

section
variable {env : Env} {cs : List UInt32} {i : Slot}

theorem readLoop_cost (ha : ∀ k, env.fails k = false) (actual : UInt32) (fuel : Nat) :
    ∀ (w : World) (total : UInt32) (buf : Buf),
    Stands env cs i w (actual.toNat - total.toNat) → total.toNat ≤ actual.toNat → actual.toNat - total.toNat < fuel →
    ∃ r w', readLoop env i actual fuel total buf w = .ok (r, w') ∧ w'.calls.length =
      w.calls.length + readCost w.vol (w.handles i).currentFilePos.toNat (actual.toNat - total.toNat) := by
  induction fuel with
  | zero =>
    intro w total buf _ _ hf
    omega
  | succ fuel ih =>
    intro w total buf hs hle hf
    by_cases hlt : total.toNat < actual.toNat
    · have hactual := actual.toNat_lt
      have hb := hs.volume.bpc_pos
      obtain ⟨n, buf1, hn, hdel, e⟩ := readLoop_data hs.volume hs.chain hs.cursor buf fuel hlt hs.small
      have hn0 : 0 < n.toNat := by omega
      have htot : (total + n).toNat = total.toNat + n.toNat := by
        rw [UInt32.toNat_add]
        omega
      have hleft : actual.toNat - (total + n).toNat = actual.toNat - total.toNat - n.toNat := by omega
      -- behind a turn that goes on
      have next : ∀ {d w1}, Goes env cs i w (actual.toNat - total.toNat) total.toNat buf n.toNat d buf1 w1 →
          ∃ r w', readLoop env i actual fuel (total + n) buf1 w1 = .ok (r, w') ∧ w'.calls.length = w.calls.length + d +
            readCost w.vol ((w.handles i).currentFilePos.toNat + n.toNat) (actual.toNat - total.toNat - n.toNat) := by
        intro d w1 hg
        obtain ⟨r, w', e, hc⟩ := ih w1 (total + n) buf1 (by rw [hleft]; exact hs.goes hg) (by omega) (by omega)
        rw [hg.calls, hg.moves.vol, hg.pos, hleft] at hc
        exact ⟨r, w', e, hc⟩
      rw [e, if_neg (by rw [ha]; decide)]
      have hcmp := hs.crosses (n := n) (by omega)
      by_cases hout : w.vol.bpc ≤ (w.handles i).currentFilePos.toNat % w.vol.bpc + n.toNat
      · have hend := cluster_end hb (by omega) hout
        rw [if_pos (hcmp.mpr hout), readCost_cluster hb hn0 hn hend,
          getNextCluster_chain (w := World.advanced w i _ n) hs.volume hs.chain hs.cursor.cluster, ha, ok_bind,
          if_neg Bool.false_ne_true]
        cases hd : cs[(w.handles i).currentFilePos.toNat / w.vol.bpc + 1]? with
        | none =>
          -- the last cluster: the file ends here
          have hlen := List.getElem?_eq_none_iff.mp hd
          have hk := (List.getElem?_eq_some_iff.mp hs.cursor.cluster).1
          have hroom := hs.room
          rw [show cs.length = (w.handles i).currentFilePos.toNat / w.vol.bpc + 1 by omega, ← hend] at hroom
          rw [show actual.toNat - total.toNat - n.toNat = 0 by omega, readCost_zero]
          exact ⟨_, _, rfl, rfl⟩
        | some d =>
          obtain ⟨r, w', e', hc⟩ := next (advanced_next hs hn hdel (ha _) _ hn0 hend (ha _) hd)
          exact ⟨r, w', e', hc.trans (Nat.add_assoc _ _ _)⟩
      · rw [if_neg fun h => hout (hcmp.mp h), readCost_sector hb hn0 hn (by omega)]
        obtain ⟨r, w', e', hc⟩ := next (advanced_goes hs hn hdel (ha _) _ (by omega))
        exact ⟨r, w', e', hc.trans (Nat.add_assoc _ _ _)⟩
    · -- nothing left to read
      have hltU : ¬total < actual := by rwa [UInt32.lt_iff_toNat_lt]
      rw [show actual.toNat - total.toNat = 0 by omega, readCost_zero]
      exact ⟨(.success, buf), w, by simp [readLoop, hltU], rfl⟩

variable {w w' : World}

/-- On a card whose reads do not fail, a read of an open handle takes the cost of what it delivers, and
    its position moves on by that. -/
theorem fat32Read_cost (ha : ∀ k, env.fails k = false) (hv : w.vol.WellFormed) {id n : UInt32} (hi : id.toNat < 16)
    {buf : Buf}
    (ho : OnFile env w.vol (w.handles ⟨id.toNat, hi⟩) cs) (hopen : (w.handles ⟨id.toNat, hi⟩).isFree = false)
    (hn : n.toNat < 2 ^ 31) {r : Bool × Option Buf} (e : fat32Read env id (some buf) n w = .ok (r, w')) :
    w'.calls.length = w.calls.length +
        readCost w.vol (w.handles ⟨id.toNat, hi⟩).currentFilePos.toNat ((w.handles ⟨id.toNat, hi⟩).wanted n) ∧
      (w'.handles ⟨id.toNat, hi⟩).currentFilePos.toNat =
        (w.handles ⟨id.toNat, hi⟩).currentFilePos.toNat + (w.handles ⟨id.toNat, hi⟩).wanted n ∧
      ∀ j, j ≠ ⟨id.toNat, hi⟩ → w'.handles j = w.handles j := by
  obtain ⟨res, m, buf', w1, e1, hmv, hpos, hout, -⟩ := fat32Read_spec hv hi buf ho hopen hn
  rw [e1] at e
  obtain ⟨-, rfl⟩ := Prod.mk.inj (Except.ok.inj e)
  have hm : m = (w.handles ⟨id.toNat, hi⟩).wanted n := by
    cases hout with
    | all => rfl
    | stopped hk =>
      obtain ⟨k, -, hf⟩ := hk
      rw [ha] at hf
      cases hf
    | between _ _ _ _ hf =>
      rw [ha] at hf
      cases hf
  refine ⟨?_, by rw [hpos, hm], hmv.others⟩
  have hactual := ho.onChain.clamp hn
  have hle := ho.onChain.wanted_le n
  rw [fat32Read_open hv.initialized hi hopen] at e1
  generalize min n ((w.handles ⟨id.toNat, hi⟩).fileSize - (w.handles ⟨id.toNat, hi⟩).currentFilePos) =
      actual at e1 hactual
  by_cases h0 : actual = 0
  · -- nothing left
    rw [if_pos h0] at e1
    obtain ⟨-, rfl⟩ := Prod.mk.inj (Except.ok.inj e1)
    rw [← hactual, h0]
    rfl
  · rw [if_neg h0] at e1
    have hpos0 : 0 < actual.toNat := Nat.pos_of_ne_zero fun hz => h0 (UInt32.toNat_inj.mp hz)
    have hroom := ho.holds.room
    obtain ⟨hch, hat⟩ := ho.onChain.at_cluster (by omega)
    have hs : Stands env cs ⟨id.toNat, hi⟩ w (actual.toNat - (0 : UInt32).toNat) := by
      rw [show (0 : UInt32).toNat = 0 from rfl, Nat.sub_zero, hactual]
      exact ⟨hv, hch, hat, Nat.lt_of_le_of_lt hle ho.holds.small, by omega⟩
    obtain ⟨r, w2, e2, hc⟩ := readLoop_cost ha actual (actual.toNat + 1) w 0 buf hs (Nat.zero_le _)
      (by rw [show (0 : UInt32).toNat = 0 from rfl]; omega)
    rw [e2, ok_bind] at e1
    obtain ⟨-, rfl⟩ := Prod.mk.inj (Except.ok.inj e1)
    rw [hc, show (0 : UInt32).toNat = 0 from rfl, Nat.sub_zero, hactual]

/-! ## Reads by turns -/

/-- The position of a handle in its file. -/
def World.pos (w : World) (i : Slot) : Nat := (w.handles i).currentFilePos.toNat

/-- What it takes to read what each handle has moved on by, each in one piece. -/
def spent (w w' : World) : Nat := ∑ i, readCost w.vol (w.pos i) (w'.pos i - w.pos i)

/-- A read, of less than 2^31 bytes. -/
def Call.SmallRead (l : Call) : Prop := l.Small ∧ ∃ i, l.reads i = true

/-- A read that takes nothing moves nothing. -/
theorem spent_self (w : World) : spent w w = 0 := by
  unfold spent
  simp

theorem read_cost (ha : ∀ k, env.fails k = false) (hv : w.vol.WellFormed) (ho : OnFiles env w) {l : Call}
    (hs : FileStep env w l w')
    (hl : l.SmallRead) : ∃ i m, w'.pos i = w.pos i + m ∧ (∀ j, j ≠ i → w'.pos j = w.pos j) ∧
      w'.calls.length = w.calls.length + readCost w.vol (w.pos i) m := by
  obtain ⟨hsmall, i, hi⟩ := hl
  cases hs with
  | openFile => cases hi
  | close => cases hi
  | @read _ id n buffer buffer' ok e =>
    by_cases hr : buffer = none ∨ ∀ hi : id.toNat < 16, (w.handles ⟨id.toNat, hi⟩).isFree = true
    · rw [fat32Read_refused env hr] at e
      cases e
      exact ⟨i, 0, rfl, fun _ _ => rfl, by rw [readCost_zero]; rfl⟩
    · simp only [not_or, not_forall, Bool.not_eq_true] at hr
      obtain ⟨hb, hid, hopen⟩ := hr
      obtain ⟨buf, rfl⟩ := Option.ne_none_iff_exists'.mp hb
      obtain ⟨cs, hcs⟩ := ho ⟨id.toNat, hid⟩ hopen
      obtain ⟨hcalls, hpos, hother⟩ := fat32Read_cost ha hv hid hcs hopen hsmall e
      exact ⟨_, _, hpos, fun j hj => congrArg (·.currentFilePos.toNat) (hother j hj), hcalls⟩

/-- A stretch of one handle, read in two pieces. -/
theorem spent_step {i : Slot} {m : Nat} {w1 : World} (hvol : w1.vol = w.vol) (hpos : w1.pos i = w.pos i + m)
    (hother : ∀ j, j ≠ i → w1.pos j = w.pos j) (hle : w1.pos i ≤ w'.pos i) :
    spent w w' ≤ readCost w.vol (w.pos i) m + spent w1 w' ∧ readCost w.vol (w.pos i) m + spent w1 w' ≤ spent w w' + 1 :=
      by
  have hrest : ∑ j ∈ Finset.univ.erase i, readCost w1.vol (w1.pos j) (w'.pos j - w1.pos j) =
      ∑ j ∈ Finset.univ.erase i, readCost w.vol (w.pos j) (w'.pos j - w.pos j) := by
    refine Finset.sum_congr rfl fun j hj => ?_
    rw [hvol, hother j (Finset.ne_of_mem_erase hj)]
  have hsplit := readCost_split w.vol (w.pos i) m (w'.pos i - w1.pos i)
  rw [show m + (w'.pos i - w1.pos i) = w'.pos i - w.pos i by omega, ← hpos] at hsplit
  unfold spent
  rw [← Finset.add_sum_erase Finset.univ (fun j => readCost w.vol (w.pos j) (w'.pos j - w.pos j)) (Finset.mem_univ i),
    ← Finset.add_sum_erase Finset.univ (fun j => readCost w1.vol (w1.pos j) (w'.pos j - w1.pos j)) (Finset.mem_univ i),
      hrest, hvol]
  omega

/-- Whatever reads of whatever open handles come in whatever order: they take no fewer SD reads than if
    what each handle moved on by were read in one piece, and at most one more for each read. -/
theorem reads_cost (ha : ∀ k, env.fails k = false) {v : VolumeInfo} (hv : v.WellFormed) (hf : FilesHold env v)
    (h : Mounted env v w) {ls : List Call} (hr : Run (FileStep env) w ls w') (hls : ∀ l ∈ ls, l.SmallRead) :
    w.calls.length + spent w w' ≤ w'.calls.length ∧ w'.calls.length ≤ w.calls.length + spent w w' + ls.length := by
  -- no position goes back
  have both : (∀ j, w.pos j ≤ w'.pos j) ∧ w.calls.length + spent w w' ≤ w'.calls.length ∧
      w'.calls.length ≤ w.calls.length + spent w w' + ls.length := by
    induction hr with
    | nil w =>
      rw [spent_self]
      exact ⟨fun _ => Nat.le_refl _, Nat.le_refl _, Nat.le_refl _⟩
    | @cons w w1 w' l ls hstep _ ih =>
      have hl := hls l List.mem_cons_self
      obtain ⟨rfl, ho⟩ := h
      obtain ⟨i, m, hpos, hother, hcalls⟩ := read_cost ha hv ho hstep hl
      obtain ⟨hvol, ho'⟩ := step_onFiles hv hf ho hl.1 (lookupsOk ha w l) hstep
      obtain ⟨hmono, hlo, hhi⟩ := ih ⟨hvol, ho'⟩ fun l' hl' => hls l' (List.mem_cons_of_mem _ hl')
      have hsplit := spent_step hvol hpos hother (hmono i)
      refine ⟨fun j => ?_, by omega, by rw [List.length_cons]; omega⟩
      by_cases hj : j = i
      · have hi := hmono i
        rw [hj]
        omega
      · exact (hother j hj).symm.le.trans (hmono j)
  exact both.2

/-- `/A`, open as handle 0, is read in two pieces. -/
theorem reads_cost_sample : ∃ ls w', Run (FileStep (failing fun _ => false))
    (openOn fun _ => false) ls w' ∧ ls.length = 2 ∧
    (openOn fun _ => false).calls.length + spent (openOn fun _ => false) w' ≤ w'.calls.length ∧
    w'.calls.length ≤ (openOn fun _ => false).calls.length + spent (openOn fun _ => false) w' + ls.length := by
  let rs : List Request := [.read 0 (some fun _ => 0) 100, .read 0 (some fun _ => 0) 500]
  have hall : (answer (runRequests (failing fun _ => false) 9 rs (openOn fun _ => false))).map
      (fun ls => ls.map (Call.reads 0)) = some [true, true] := by decide +kernel
  obtain ⟨ls, hls, hreads⟩ := Option.map_eq_some_iff.mp hall
  have hsmall : ∀ r ∈ rs, r.Small := by
    simp only [rs, List.forall_mem_cons, List.not_mem_nil, false_imp_iff, implies_true, and_true]
    exact ⟨show (100 : UInt32).toNat < _ by decide, show (500 : UInt32).toNat < _ by decide⟩
  have hrun := runRequests_run (answer_some hls) hsmall
  have hmem : ∀ l ∈ ls, l.SmallRead := by
    intro l hl
    have h0 : l.reads 0 ∈ ls.map (Call.reads 0) := List.mem_map_of_mem hl
    rw [hreads] at h0
    exact ⟨hrun.guard_mem l hl, 0, by simpa using h0⟩
  have hmount : answer (fat32Init (failing fun _ => false) World.boot) = some true := by decide +kernel
  have hopen : answer (fat32Open (failing fun _ => false) 9 [0x2F, 0x41] 0 (mountOn fun _ => false)) = some 0 :=
      by decide +kernel
  have hvol : (mountOn fun _ => false).vol = sampleVolume := by decide +kernel
  have hinit : Mounted (failing fun _ => false) sampleVolume (mountOn fun _ => false) :=
      hvol ▸ mounted_init (answer_some hmount)
  have hfirst : Run (Guard (StepOk (failing fun _ => false)) (FileStep (failing fun _ => false))) (mountOn fun _ =>
      false)
      [.openFile [0x2F, 0x41] 0 0] (openOn fun _ => false) :=
    .cons ⟨⟨trivial, trivial⟩, .openFile (answer_some hopen)⟩ (.nil _)
  have hmounted : Mounted (failing fun _ => false) sampleVolume (openOn fun _ => false) :=
    run_mounted sampleVolume_wellFormed (sample_filesHold _) hinit hfirst
  have hlen : ls.length = 2 := by
    have := congrArg List.length hreads
    rwa [List.length_map] at this
  obtain ⟨hlo, hhi⟩ := reads_cost (fun _ => rfl) sampleVolume_wellFormed (sample_filesHold _) hmounted hrun.unguard hmem
  exact ⟨ls, _, hrun.unguard, hlen, hlo, hhi⟩

end

end OpenGpos.Fat
