/-
  OpenGpos.Fat.Short — reads of a file whose chain may be shorter than the size in its directory
  entry. `fat_read_file` leaves its loop at the end of the chain and returns FAT_SUCCESS: a read
  past the end is the read of what the chain has left (`readLoop_past`), answered with true. The
  offset then stands at the end of the last cluster, and the next read takes the sector behind it.
-/
import OpenGpos.Fat.Handles

namespace OpenGpos.Fat

open OpenGpos.Lib.Runs

/-! ## The loop at the end of the chain -/

section
variable {env : Env} {cs : List UInt32} {i : Slot}

/-- The commands of a read up to the lookup at the end of the chain succeed. -/
def ReachesEnd (env : Env) (v : VolumeInfo) (cs : List UInt32) (base p : Nat) : Prop :=
  ∀ k, base ≤ k → k ≤ lookupAt v base p cs.length → env.fails k = false

/-- A turn that goes on comes no nearer to the lookup at the end. -/
theorem Goes.reachesEnd {w w1 : World} {left dst n d : Nat} {buf buf1 : Buf}
    (hg : Goes env cs i w left dst buf n d buf1 w1) (hn : 0 < left - n)
    (hlt : (w.handles i).currentFilePos.toNat + n < cs.length * w.vol.bpc) :
    ReachesEnd env w1.vol cs w1.calls.length (w1.handles i).currentFilePos.toNat ↔
      ReachesEnd env w.vol cs w.calls.length (w.handles i).currentFilePos.toNat := by
  unfold ReachesEnd
  rw [hg.moves.vol, hg.pos, hg.calls, hg.lookups _ hn hlt]
  constructor
  · intro h k h1 h2
    by_cases hk : w.calls.length + d ≤ k
    · exact h k hk h2
    · exact hg.reads k h1 (by omega)
  · intro h k h1 h2
    exact h k (by omega) h2

/-- Up to the end of the chain a longer request makes the same turn. -/
theorem readLoop_data_past {w : World} {rest total : UInt32} (hs : Stands env cs i w (rest.toNat - total.toNat))
    (hend : (w.handles i).currentFilePos.toNat + (rest.toNat - total.toNat) = cs.length * w.vol.bpc)
    (htot : total.toNat < rest.toNat) (buf : Buf) (fuel : Nat) :
    let call := SdCall.readPartialBlock ((w.handles i).lba w.vol) ((w.handles i).currentOffset % 512)
    ∃ (n : UInt32) (buf' : Buf),
      n.toNat = Min.min (rest.toNat - total.toNat) (512 - (w.handles i).currentFilePos.toNat % 512) ∧
      Delivered env w.vol cs (w.handles i).currentFilePos.toNat total.toNat n.toNat buf buf' ∧
      ∀ actual : UInt32, rest.toNat ≤ actual.toNat →
        (w.handles i).currentFilePos.toNat + (actual.toNat - total.toNat) < 2 ^ 31 →
        readLoop env i actual (fuel + 1) total buf w =
          if env.fails w.calls.length then
            .ok ((.readFail, blit buf total.toNat n.toNat fun q => env.junk w.calls.length q (buf (total.toNat + q))),
              { w with calls := call n :: w.calls })
          else if w.vol.bytesPerCluster ≤ (w.handles i).currentOffset + n then
            (getNextCluster env (w.handles i).currentCluster (w.advanced i (call n) n)).bind fun r =>
              if r.1.1 = .endOfChain then .ok ((.success, buf'), r.2)
              else if r.1.1 ≠ .success then .ok ((r.1.1, buf'), r.2)
              else readLoop env i actual fuel (total + n) buf'
                (r.2.setHandle i { (w.handles i).advance n with currentCluster := r.1.2, currentOffset := 0 })
          else readLoop env i actual fuel (total + n) buf' (w.advanced i (call n) n) := by
  intro call
  obtain ⟨n, buf1, hn, hdel, -⟩ := readLoop_data hs.volume hs.chain hs.cursor buf fuel htot hs.small
  refine ⟨n, buf1, hn, hdel, fun actual hle hsmall => ?_⟩
  have hlt : total.toNat < actual.toNat := Nat.lt_of_lt_of_le htot hle
  obtain ⟨n2, buf2, hn2, hdel2, e⟩ := readLoop_data hs.volume hs.chain hs.cursor buf fuel hlt hsmall
  -- what is left of either reaches to the end of the sector
  have hnn : n2 = n := by
    have hmul := mul_bpc w.vol cs.length
    rw [← UInt32.toNat_inj, hn, hn2]
    omega
  subst hnn
  have hbuf : buf2 = buf1 := funext fun q => by rw [hdel q, hdel2 q]
  subst hbuf
  exact e

/-- A request past the end of the chain runs like the one for what the chain has left, which
    succeeds exactly if it comes to the end. -/
theorem readLoop_past (actual rest : UInt32) (hle : rest.toNat ≤ actual.toNat) (fuel : Nat) :
    ∀ (w : World) (total : UInt32) (buf : Buf), Stands env cs i w (rest.toNat - total.toNat) →
    (w.handles i).currentFilePos.toNat + (rest.toNat - total.toNat) = cs.length * w.vol.bpc →
    (w.handles i).currentFilePos.toNat + (actual.toNat - total.toNat) < 2 ^ 31 → rest.toNat - total.toNat < fuel →
    readLoop env i actual fuel total buf w = readLoop env i rest fuel total buf w ∧
    ((∃ buf' w', readLoop env i rest fuel total buf w = .ok ((.success, buf'), w')) ↔
      ReachesEnd env w.vol cs w.calls.length (w.handles i).currentFilePos.toNat) := by
  induction fuel with
  | zero => intro w total buf _ _ _ hf; omega
  | succ fuel ih =>
    intro w total buf hs hend hsmall hf
    have hb := hs.volume.bpc_pos
    have hcl := hs.cursor.cluster
    let p := (w.handles i).currentFilePos.toNat
    have hk : p / w.vol.bpc < cs.length := (List.getElem?_eq_some_iff.mp hcl).1
    have hlt : p < cs.length * w.vol.bpc := (Nat.div_lt_iff_lt_mul hb).mp hk
    have hmul := mul_bpc w.vol cs.length
    have hp : p + (rest.toNat - total.toNat) = cs.length * w.vol.bpc := hend
    have hp' : p + (actual.toNat - total.toNat) < 2 ^ 31 := hsmall
    have htot : total.toNat < rest.toNat := by omega
    have hrest := rest.toNat_lt
    obtain ⟨n, buf1, hn, hdel, e⟩ := readLoop_data_past hs hend htot buf fuel
    have hn' : n.toNat = Min.min (rest.toNat - total.toNat) (512 - p % 512) := hn
    have hn0 : 0 < n.toNat := by omega
    have htot' : (total + n).toNat = total.toNat + n.toNat := by
      rw [UInt32.toNat_add]
      omega
    have hlast : w.calls.length < lookupAt w.vol w.calls.length p cs.length := by
      unfold lookupAt
      omega
    -- the rest of the request, behind a turn that goes on
    have next : ∀ {d w1}, Goes env cs i w (rest.toNat - total.toNat) total.toNat buf n.toNat d buf1 w1 →
        p + n.toNat < cs.length * w.vol.bpc →
        readLoop env i actual fuel (total + n) buf1 w1 = readLoop env i rest fuel (total + n) buf1 w1 ∧
        ((∃ buf' w', readLoop env i rest fuel (total + n) buf1 w1 = .ok ((.success, buf'), w')) ↔
          ReachesEnd env w.vol cs w.calls.length p) := by
      intro d w1 hg hin
      have hrest : rest.toNat - (total + n).toNat = rest.toNat - total.toNat - n.toNat := by omega
      have hend1 : (w1.handles i).currentFilePos.toNat + (rest.toNat - (total + n).toNat) = cs.length * w1.vol.bpc := by
        rw [hg.pos, hg.moves.vol, ← hend]
        omega
      have hsmall1 : (w1.handles i).currentFilePos.toNat + (actual.toNat - (total + n).toNat) < 2 ^ 31 := by
        rw [hg.pos]
        omega
      have h := ih w1 (total + n) buf1 (by rw [hrest]; exact hs.goes hg) hend1 hsmall1 (by omega)
      exact ⟨h.1, h.2.trans (hg.reachesEnd (by omega) hin)⟩
    rw [e actual hle hsmall, e rest (Nat.le_refl _) hs.small]
    by_cases hfail : env.fails w.calls.length = true
    · -- the data read fails
      rw [if_pos hfail, if_pos hfail]
      refine ⟨rfl, ?_, fun h => ?_⟩
      · rintro ⟨_, _, h⟩
        cases h
      · rw [h _ (Nat.le_refl _) (Nat.le_of_lt hlast)] at hfail
        cases hfail
    have hok : env.fails w.calls.length = false := by simpa using hfail
    rw [if_neg hfail, if_neg hfail]
    have hcmp := hs.crosses (n := n) (by omega)
    by_cases hout : w.vol.bpc ≤ p % w.vol.bpc + n.toNat
    · rw [if_pos (hcmp.mpr hout), if_pos (hcmp.mpr hout)]
      have hclend : p + n.toNat = (p / w.vol.bpc + 1) * w.vol.bpc := cluster_end hb (by omega) hout
      have hhere := lookupAt_here (by omega) hn0 hclend w.calls.length
      have hnext (call : SdCall) := getNextCluster_chain (w := w.advanced i call n) hs.volume hs.chain hcl
      have hcalls (call : SdCall) : (w.advanced i call n).calls.length = w.calls.length + 1 := rfl
      simp only [hcalls] at hnext
      rw [hnext, ok_bind, ok_bind]
      by_cases hfat : env.fails (w.calls.length + 1) = true
      · -- the lookup fails
        simp only [if_pos hfat, reduceCtorEq, ne_eq, not_false_eq_true, if_false, if_true, true_and]
        refine ⟨?_, fun h => ?_⟩
        · rintro ⟨_, _, h⟩
          cases h
        · rw [h _ (Nat.le_succ _) hlast] at hfat
          cases hfat
      simp only [if_neg hfat]
      cases hd : cs[p / w.vol.bpc + 1]? with
      | none =>
        -- the last cluster
        have hlen := List.getElem?_eq_none_iff.mp hd
        rw [show p / w.vol.bpc + 1 = cs.length by omega] at hhere
        simp only [if_true, true_and]
        refine ⟨fun _ k h1 h2 => ?_, fun _ => ⟨_, _, rfl⟩⟩
        have h2' : k ≤ w.calls.length + 1 := hhere ▸ h2
        by_cases hk0 : k = w.calls.length
        · rw [hk0]
          exact hok
        · rw [show k = w.calls.length + 1 by omega]
          simpa using hfat
      | some d =>
        have hin : p + n.toNat < cs.length * w.vol.bpc := by
          rw [hclend]
          exact Nat.mul_lt_mul_of_pos_right (List.getElem?_eq_some_iff.mp hd).1 hb
        simp only [reduceCtorEq, ne_eq, not_true_eq_false, if_false]
        exact next (advanced_next hs hn hdel hok _ hn0 hclend (by simpa using hfat) hd) hin
    · rw [if_neg fun h => hout (hcmp.mp h), if_neg fun h => hout (hcmp.mp h)]
      have hin : (p + n.toNat) / w.vol.bpc = p / w.vol.bpc := (add_in_cluster hb (Nat.lt_of_not_le hout)).1
      refine next (advanced_goes hs hn hdel hok _ (Nat.lt_of_not_le hout)) ?_
      rw [← Nat.div_lt_iff_lt_mul hb, hin]
      exact hk

end

/-! ## A read past the end -/

section
variable {env : Env} {w : World} {cs : List UInt32} (hv : w.vol.WellFormed) {id n : UInt32} (hi : id.toNat < 16)
  (buf : Buf) (hopen : (w.handles ⟨id.toNat, hi⟩).isFree = false)
include hv hopen

/-- From a cluster of the chain: the read of what the chain has left, with its answer. -/
theorem fat32Read_past (ho : OnChain env w.vol (w.handles ⟨id.toNat, hi⟩) cs) (hn : n.toNat < 2 ^ 31)
    (hbefore : (w.handles ⟨id.toNat, hi⟩).currentFilePos.toNat < cs.length * w.vol.bpc)
    (hpast : cs.length * w.vol.bpc <
      (w.handles ⟨id.toNat, hi⟩).currentFilePos.toNat + (w.handles ⟨id.toNat, hi⟩).wanted n) :
    let h := w.handles ⟨id.toNat, hi⟩
    let left := cs.length * w.vol.bpc - h.currentFilePos.toNat
    ∃ res m buf' w', fat32Read env id (some buf) n w = .ok ((res == .success, some buf'), w') ∧
      Moves ⟨id.toNat, hi⟩ w w' ∧
      (w'.handles ⟨id.toNat, hi⟩).currentFilePos.toNat = h.currentFilePos.toNat + m ∧
      ReadOutcome env w.vol cs w.calls.length h.currentFilePos.toNat left res m (w'.handles ⟨id.toNat, hi⟩) ∧
      (res = .success → Delivered env w.vol cs h.currentFilePos.toNat 0 left buf buf') ∧
      (res = .success ↔ ReachesEnd env w.vol cs w.calls.length h.currentFilePos.toNat) := by
  intro h left
  let i : Slot := ⟨id.toNat, hi⟩
  let actual := min n (h.fileSize - h.currentFilePos)
  have ha : actual.toNat = h.wanted n := ho.clamp hn
  have hle : h.currentFilePos.toNat + h.wanted n ≤ h.fileSize.toNat := ho.wanted_le n
  have hsmall : h.fileSize.toNat < 2 ^ 31 := ho.small
  have hb : h.currentFilePos.toNat < cs.length * w.vol.bpc := hbefore
  have hp : cs.length * w.vol.bpc < h.currentFilePos.toNat + h.wanted n := hpast
  obtain ⟨hch, hat⟩ := ho.at_cluster hbefore
  have hrest : (UInt32.ofNat left).toNat = left := by
    rw [UInt32.toNat_ofNat']
    omega
  have hz : (0 : UInt32).toNat = 0 := rfl
  have hs : Stands env cs i w ((UInt32.ofNat left).toNat - (0 : UInt32).toNat) := by
    rw [hz, Nat.sub_zero, hrest]
    exact ⟨hv, hch, hat, by show h.currentFilePos.toNat + _ < _; omega, by show h.currentFilePos.toNat + _ ≤ _; omega⟩
  obtain ⟨heq, hiff⟩ := readLoop_past actual (UInt32.ofNat left) (by omega) (actual.toNat + 1) w 0 buf hs
    (by rw [hz, Nat.sub_zero, hrest]; show h.currentFilePos.toNat + _ = _; omega)
    (by rw [hz, Nat.sub_zero]; show h.currentFilePos.toNat + _ < _; omega) (by omega)
  obtain ⟨res, m, buf', w', e, hmv, hpos, hout, hd⟩ := readLoop_spec (UInt32.ofNat left) (actual.toNat + 1) w 0 buf hs
    (Nat.zero_le _) (by omega)
  rw [hz, Nat.sub_zero, hrest] at hout hd
  refine ⟨res, m, buf', w', ?_, hmv, hpos, hout, hd, ?_⟩
  · have h0 : ¬ actual = 0 := fun h0 => by
      rw [h0, hz] at ha
      omega
    rw [fat32Read_open hv.initialized hi hopen, if_neg h0,
      show readLoop env ⟨id.toNat, hi⟩ (min n ((w.handles ⟨id.toNat, hi⟩).fileSize -
        (w.handles ⟨id.toNat, hi⟩).currentFilePos)) _ 0 buf w = _ from heq.trans e]
    rfl
  · rw [← hiff, e]
    constructor
    · intro hr
      exact ⟨buf', w', by rw [hr]⟩
    · rintro ⟨b, w1, h1⟩
      cases h1
      rfl

/-- From the end of the chain: a read whose first command fails leaves the handle alone. -/
theorem fat32Read_stuck (hn : (w.handles ⟨id.toNat, hi⟩).wanted n ≠ 0)
    (ho : OnChain env w.vol (w.handles ⟨id.toNat, hi⟩) cs) (hsmall : n.toNat < 2 ^ 31)
    (hf : env.fails w.calls.length = true) :
    ∃ buf' call, fat32Read env id (some buf) n w = .ok ((false, some buf'), { w with calls := call :: w.calls }) := by
  let h := w.handles ⟨id.toNat, hi⟩
  have ha : (min n (h.fileSize - h.currentFilePos)).toNat = h.wanted n := ho.clamp hsmall
  have h0 : min n (h.fileSize - h.currentFilePos) ≠ 0 := fun h0 => hn (by rw [← ha, h0]; rfl)
  have hlt : 0 < min n (h.fileSize - h.currentFilePos) := by
    rw [UInt32.lt_iff_toNat_lt, ha]
    exact Nat.pos_of_ne_zero hn
  rw [fat32Read_open hv.initialized hi hopen, if_neg h0, readLoop_turn hv.sector hlt]
  simp only [sdReadPartialBlock]
  rw [sdRead_fail hf]
  exact ⟨_, _, rfl⟩

end

/-! ## Runs of reads -/

/-- A read on handle `id`. -/
def Call.ReadsOn (id : UInt32) : Call → Prop
  | .read id' _ n _ _ => id' = id ∧ n.toNat < 2 ^ 31
  | _ => False

/-- The chain `cs` has the bytes that the read is for, or the read fails before it comes to the
    end of the chain. -/
def EndsOk (env : Env) (cs : List UInt32) (w : World) : Call → Prop
  | .read id (some _) n _ _ => ∀ hi : id.toNat < 16,
      let h := w.handles ⟨id.toNat, hi⟩
      h.currentFilePos.toNat + h.wanted n ≤ cs.length * w.vol.bpc ∨
        ¬ ReachesEnd env w.vol cs w.calls.length h.currentFilePos.toNat
  | _ => True

/-- A read that returns true delivers all the bytes it is for, each of them from the chain `cs`. -/
def Complete (env : Env) (cs : List UInt32) (w : World) : Call → Prop
  | .read id buffer n ok buffer' => ok = true → ∃ (hi : id.toNat < 16) (b b' : Buf), buffer = some b ∧ buffer' = some b' ∧
      let h := w.handles ⟨id.toNat, hi⟩
      h.currentFilePos.toNat + h.wanted n ≤ cs.length * w.vol.bpc ∧
        Delivered env w.vol cs h.currentFilePos.toNat 0 (h.wanted n) b b'
  | _ => True

/-- Handle `i` is open and stands on the chain `cs`. -/
structure StaysOpen (env : Env) (v : VolumeInfo) (i : Slot) (cs : List UInt32) (w : World) : Prop where
  vol : w.vol = v
  opened : (w.handles i).isFree = false
  onChain : OnChain env v (w.handles i) cs

section
variable {env : Env} {w w' : World} {cs : List UInt32} {id n : UInt32} {hi : id.toNat < 16}

/-- A handle never stands behind the end of its chain. -/
theorem OnChain.pos_le {v : VolumeInfo} {h : FileHandle} (hb : 0 < v.bpc) (ho : OnChain env v h cs) :
    h.currentFilePos.toNat ≤ cs.length * v.bpc := by
  rcases ho.cursor with hc | hc
  · have hk := (List.getElem?_eq_some_iff.mp hc.cluster).1
    exact Nat.le_of_lt ((Nat.div_lt_iff_lt_mul hb).mp hk)
  · exact Nat.le_of_eq hc

/-- At the end of the chain the first command of a read is the one that matters. -/
theorem reachesEnd_end {v : VolumeInfo} {base p : Nat} (hp : p = cs.length * v.bpc) (hb : 0 < v.bpc) :
    ReachesEnd env v cs base p ↔ env.fails base = false := by
  have hdiv : p / v.bpc = cs.length := by rw [hp, Nat.mul_div_cancel _ hb]
  have hlook : lookupAt v base p cs.length = base := by
    rw [mul_bpc] at hp
    unfold lookupAt
    omega
  unfold ReachesEnd
  rw [hlook]
  constructor
  · intro h
    exact h base (Nat.le_refl _) (Nat.le_refl _)
  · intro h k h1 h2
    rw [show k = base by omega]
    exact h

/-- A read that is not served short: it runs like a read of `left` bytes that the chain has, and
    succeeds only with all the bytes it is for. -/
theorem fat32Read_whole (hv : w.vol.WellFormed) (buf : Buf) (hopen : (w.handles ⟨id.toNat, hi⟩).isFree = false)
    (ho : OnChain env w.vol (w.handles ⟨id.toNat, hi⟩) cs) (hn : n.toNat < 2 ^ 31) :
    let h := w.handles ⟨id.toNat, hi⟩
    h.currentFilePos.toNat + h.wanted n ≤ cs.length * w.vol.bpc ∨
      ¬ ReachesEnd env w.vol cs w.calls.length h.currentFilePos.toNat →
    ∃ res m left buf' w', fat32Read env id (some buf) n w = .ok ((res == .success, some buf'), w') ∧
      Moves ⟨id.toNat, hi⟩ w w' ∧ left ≤ h.wanted n ∧
      (w'.handles ⟨id.toNat, hi⟩).currentFilePos.toNat = h.currentFilePos.toNat + m ∧
      ReadOutcome env w.vol cs w.calls.length h.currentFilePos.toNat left res m (w'.handles ⟨id.toNat, hi⟩) ∧
      (res = .success → h.currentFilePos.toNat + h.wanted n ≤ cs.length * w.vol.bpc ∧
        Delivered env w.vol cs h.currentFilePos.toNat 0 (h.wanted n) buf buf') := by
  intro h hok
  have hb := hv.bpc_pos
  have hle : h.currentFilePos.toNat ≤ cs.length * w.vol.bpc := ho.pos_le hb
  by_cases hroom : h.currentFilePos.toNat + h.wanted n ≤ cs.length * w.vol.bpc
  · obtain ⟨res, m, buf', w', e, hmv, hp, hout, hd⟩ := fat32Read_chain hv hi buf ho hopen hn hroom
    exact ⟨res, m, h.wanted n, buf', w', e, hmv, Nat.le_refl _, hp, hout, fun hr => ⟨hroom, hd hr⟩⟩
  have hshort := hok.resolve_left hroom
  by_cases hlt : h.currentFilePos.toNat < cs.length * w.vol.bpc
  · -- the chain ends in the middle of the request
    obtain ⟨res, m, buf', w', e, hmv, hp, hout, -, hiff⟩ :=
      fat32Read_past hv hi buf hopen ho hn hlt (Nat.lt_of_not_le hroom)
    have hleft : cs.length * w.vol.bpc - h.currentFilePos.toNat ≤ h.wanted n := by omega
    exact ⟨res, m, _, buf', w', e, hmv, hleft, hp, hout, fun hr => absurd (hiff.mp hr) hshort⟩
  · -- and here there is nothing left of it
    have hend : h.currentFilePos.toNat = cs.length * w.vol.bpc := by omega
    have hf : env.fails w.calls.length = true := by
      rw [reachesEnd_end hend hb] at hshort
      simpa using hshort
    obtain ⟨buf', call, e⟩ := fat32Read_stuck hv hi buf hopen (fun h0 => hroom (by rw [h0]; exact hle)) ho hn hf
    exact ⟨.readFail, 0, 0, buf', _, e, ⟨rfl, rfl, fun _ _ => rfl, rfl, rfl, rfl, rfl, [_], rfl⟩, Nat.zero_le _, rfl,
      .stopped ⟨_, Nat.le_refl _, hf⟩ (Nat.le_refl _) (Or.inr hend), fun hr => by cases hr⟩

/-- One read of the run. -/
theorem step_complete {v : VolumeInfo} {l : Call} (hv : v.WellFormed) (hs : StaysOpen env v ⟨id.toNat, hi⟩ cs w)
    (hok : EndsOk env cs w l ∧ LookupsOk env w l) (hl : l.ReadsOn id) (h : FileStep env w l w') :
    Complete env cs w l ∧ StaysOpen env v ⟨id.toNat, hi⟩ cs w' := by
  obtain ⟨rfl, hopen, ho⟩ := hs
  obtain ⟨hends, hlook⟩ := hok
  cases h with
  | openFile e => exact hl.elim
  | close e => exact hl.elim
  | @read _ id' n buffer buffer' ok e =>
    obtain ⟨rfl, hn⟩ := hl
    cases buffer with
    | none =>
      rw [fat32Read_refused env (Or.inl rfl)] at e
      cases e
      exact ⟨fun h => (by cases h), rfl, hopen, ho⟩
    | some buf =>
      obtain ⟨res, m, left, buf', w1, e1, hmv, hleft, hp, hout, hd⟩ := fat32Read_whole hv buf hopen ho hn (hends hi)
      rw [e1] at e
      cases e
      refine ⟨fun hr => ⟨hi, buf, buf', rfl, rfl, hd (by simpa using hr)⟩, hmv.vol, by rw [hmv.isFree]; exact hopen, ?_⟩
      have hsize := ho.wanted_le n
      refine ho.after hmv.clusterStart hmv.fileSize hp (by omega) hout fun j h1 h2 h3 h4 => ?_
      exact hlook hi cs j hopen ho.chain h2 h1 (by omega) h4

/-- A read from a cluster of the chain is complete exactly if the chain does not end in it: where
    it does, the read returns true and has stopped there. -/
theorem complete_iff (hv : w.vol.WellFormed) (hopen : (w.handles ⟨id.toNat, hi⟩).isFree = false)
    (ho : OnChain env w.vol (w.handles ⟨id.toNat, hi⟩) cs) (hn : n.toNat < 2 ^ 31)
    (hbefore : (w.handles ⟨id.toNat, hi⟩).currentFilePos.toNat < cs.length * w.vol.bpc) {buf : Buf} {ok : Bool}
    {buffer' : Option Buf} (h : fat32Read env id (some buf) n w = .ok ((ok, buffer'), w')) :
    Complete env cs w (.read id (some buf) n ok buffer') ↔ EndsOk env cs w (.read id (some buf) n ok buffer') := by
  constructor
  · intro hc hi'
    by_contra hends
    obtain ⟨hroom, hreach⟩ := not_or.mp hends
    obtain ⟨res, m, buf', w1, e, -, -, -, -, hiff⟩ :=
      fat32Read_past hv hi buf hopen ho hn hbefore (Nat.lt_of_not_le hroom)
    rw [e, hiff.mpr (not_not.mp hreach)] at h
    cases h
    obtain ⟨_, _, _, -, -, hle, -⟩ := hc rfl
    exact hroom hle
  · intro hends hr
    obtain ⟨res, m, left, buf', w1, e, -, -, -, -, hd⟩ := fat32Read_whole hv buf hopen ho hn (hends hi)
    rw [e] at h
    cases h
    exact ⟨hi, buf, buf', rfl, rfl, hd (by simpa using hr)⟩

/-- In every run of reads on an open handle, on a chain of any length, whose steps do not come to
    the end of the chain and do not die in a lookup between two clusters, each read that returns
    true delivers all the bytes it is for, from the chain. -/
theorem reads_complete (hi : id.toNat < 16) {ls : List Call} (hv : w.vol.WellFormed) (hopen : (w.handles ⟨id.toNat, hi⟩).isFree = false)
    (ho : OnChain env w.vol (w.handles ⟨id.toNat, hi⟩) cs)
    (hr : Run (Guard (fun s l => EndsOk env cs s l ∧ LookupsOk env s l) (Guard (fun _ l => l.ReadsOn id) (FileStep env))) w ls w') :
    Run (Guard (Complete env cs) (FileStep env)) w ls w' := by
  have hstep : ∀ s l t, StaysOpen env w.vol ⟨id.toNat, hi⟩ cs s →
      Guard (fun s l => EndsOk env cs s l ∧ LookupsOk env s l) (Guard (fun _ l => l.ReadsOn id) (FileStep env)) s l t →
      Guard (Complete env cs) (FileStep env) s l t ∧ StaysOpen env w.vol ⟨id.toNat, hi⟩ cs t := by
    intro s l t hs hg
    obtain ⟨hok, hl, h⟩ := hg
    obtain ⟨hc, ht⟩ := step_complete hv hs hok hl h
    exact ⟨⟨hc, h⟩, ht⟩
  exact hr.strengthen hstep ⟨rfl, hopen, ho⟩

end

/-- The sample file, in two reads. -/
theorem reads_complete_sample : ∃ b b' w', Run (Guard (Complete (failing fun _ => false) [3, 5]) (FileStep (failing fun _ => false)))
    (openOn fun _ => false) [.read 0 (some fun _ => 0) 100 true b, .read 0 (some fun _ => 0) 600 true b'] w' := by
  let env := failing fun _ => false
  let first := fat32Read env 0 (some fun _ => 0) 100 (openOn fun _ => false)
  let second := fat32Read env 0 (some fun _ => 0) 600 (after first)
  have hvol : (openOn fun _ => false).vol = sampleVolume := by decide +kernel
  have hh : (openOn fun _ => false).handles 0 = openHandle ⟨fun _ => 0, 3, 600, 0, false⟩ 0 := by decide +kernel
  have h1 : (answer first).map (·.1) = some true := by decide +kernel
  have h2 : (answer second).map (·.1) = some true := by decide +kernel
  have hvol1 : (after first).vol = sampleVolume := by decide +kernel
  have hp1 : ((after first).handles 0).currentFilePos = 100 := by decide +kernel
  have hs1 : ((after first).handles 0).fileSize = 600 := by decide +kernel
  obtain ⟨b, h1⟩ := answer_fst h1
  obtain ⟨b', h2⟩ := answer_fst h2
  have hid : (⟨(0 : UInt32).toNat, by decide⟩ : Slot) = 0 := rfl
  have hlook : ∀ s l, LookupsOk env s l := by
    intro s l
    cases l with
    | read id buffer n ok buffer' =>
      cases buffer with
      | none => trivial
      | some buf =>
        intro hi cs j h p _ _ _ _ _ hf
        cases hf
    | openFile path mode id => trivial
    | close id ok => trivial
  have hends1 : EndsOk env [3, 5] (openOn fun _ => false) (.read 0 (some fun _ => 0) 100 true b) := by
    intro hi
    rw [hid, hh, hvol]
    exact Or.inl (by decide)
  have hends2 : EndsOk env [3, 5] (after first) (.read 0 (some fun _ => 0) 600 true b') := by
    intro hi
    rw [hid, hvol1]
    refine Or.inl ?_
    show ((after first).handles 0).currentFilePos.toNat + Min.min _ (((after first).handles 0).fileSize.toNat -
      ((after first).handles 0).currentFilePos.toNat) ≤ _
    rw [hp1, hs1]
    decide
  have hrun : Run (Guard (fun s l => EndsOk env [3, 5] s l ∧ LookupsOk env s l) (Guard (fun _ l => l.ReadsOn 0) (FileStep env)))
      (openOn fun _ => false) [.read 0 (some fun _ => 0) 100 true b, .read 0 (some fun _ => 0) 600 true b'] (after second) :=
    .cons ⟨⟨hends1, hlook _ _⟩, ⟨rfl, show (100 : UInt32).toNat < 2 ^ 31 by decide⟩, .read h1⟩
      (.cons ⟨⟨hends2, hlook _ _⟩, ⟨rfl, show (600 : UInt32).toNat < 2 ^ 31 by decide⟩, .read h2⟩ (.nil _))
  have hholds : Holds env sampleVolume 3 600 [3, 5] := ⟨⟨rfl, sample_chain _⟩, by decide, by decide⟩
  refine ⟨b, b', _, reads_complete (by decide) (by rw [hvol]; exact sampleVolume_wellFormed) ?_ ?_ hrun⟩
  · rw [hid, hh]; rfl
  · rw [hid, hh, hvol]
    exact OnFile.onChain (Holds.opened hholds)

/-! ## A chain shorter than its file

`/A` of 600 bytes with one cluster, 3; the sector behind it belongs to nobody. -/

def shortCard : Env := card [
  (0, 446, 0x80), (0, 450, 0x0C), (0, 454, 1), (0, 458, 100), (0, 510, 0x55), (0, 511, 0xAA),
  (1, 0x0C, 2), (1, 0x0D, 1), (1, 0x0E, 1), (1, 0x10, 1), (1, 36, 1), (1, 44, 2),
  (2, 8, 0xF8), (2, 9, 0xFF), (2, 10, 0xFF), (2, 11, 0x0F),
  (2, 12, 0xF8), (2, 13, 0xFF), (2, 14, 0xFF), (2, 15, 0x0F),
  (3, 0, 0x41), (3, 1, 0x20), (3, 8, 0x20), (3, 26, 3), (3, 28, 0x58), (3, 29, 2),
  (4, 0, 0x61), (5, 0, 0xEE)]

def shortOpen : World := after (fat32Open shortCard 9 [0x2F, 0x41] 0 (after (fat32Init shortCard World.boot)))

/-- 600 bytes asked for: true, and only the 512 bytes of the cluster are delivered. The next read
    returns true too, with a byte that is in no cluster of the file. -/
theorem short_read_true : ∃ (w w' w'' : World) (b b' : Buf),
    w.vol.WellFormed ∧ (w.handles 0).isFree = false ∧ OnChain shortCard w.vol (w.handles 0) [3] ∧
    (w.handles 0).wanted 600 = 600 ∧
    fat32Read shortCard 0 (some fun _ => 0xCC) 600 w = .ok ((true, some b), w') ∧
    (∀ q, 512 ≤ q → b q = 0xCC) ∧ (∀ o < w.vol.bpc, clusterByte shortCard w.vol 3 o ≠ 0xCC) ∧
    ¬ Complete shortCard [3] w (.read 0 (some fun _ => 0xCC) 600 true (some b)) ∧
    fat32Read shortCard 0 (some fun _ => 0xCC) 88 w' = .ok ((true, some b'), w'') ∧
    b' 0 = 0xEE ∧ ∀ o < w.vol.bpc, clusterByte shortCard w.vol 3 o ≠ 0xEE := by
  have hvol : shortOpen.vol = sampleVolume := by decide +kernel
  have hh : shortOpen.handles 0 = openHandle ⟨fun _ => 0, 3, 600, 0, false⟩ 0 := by decide +kernel
  have hother : ∀ o < 512, clusterByte shortCard sampleVolume 3 o ≠ 0xCC ∧ clusterByte shortCard sampleVolume 3 o ≠ 0xEE := by
    decide +kernel
  have hid : (⟨(0 : UInt32).toNat, by decide⟩ : Slot) = 0 := rfl
  have hv : shortOpen.vol.WellFormed := by rw [hvol]; exact sampleVolume_wellFormed
  have hopen : (shortOpen.handles 0).isFree = false := by rw [hh]; rfl
  have hend : fatEntry shortCard sampleVolume 3 = 0x0FFFFFF8 := by decide +kernel
  have ho : OnChain shortCard shortOpen.vol (shortOpen.handles 0) [3] := by
    rw [hvol, hh]
    refine ⟨⟨rfl, ⟨by decide, by decide⟩, by rw [hend]; exact ⟨by decide, by decide⟩⟩, by decide, by decide, Or.inl ⟨rfl, rfl⟩⟩
  let first := fat32Read shortCard 0 (some fun _ => 0xCC) 600 shortOpen
  let second := fat32Read shortCard 0 (some fun _ => 0xCC) 88 (after first)
  have h2 : (answer second).map (fun r => (r.1, r.2.map (· 0))) = some (true, some 0xEE) := by decide +kernel
  have hbefore : (shortOpen.handles 0).currentFilePos.toNat < [(3 : UInt32)].length * shortOpen.vol.bpc := by
    rw [hh, hvol]; decide
  have hpast : [(3 : UInt32)].length * shortOpen.vol.bpc <
      (shortOpen.handles 0).currentFilePos.toNat + (shortOpen.handles 0).wanted 600 := by
    rw [hh, hvol]; decide
  have hi : (0 : UInt32).toNat < 16 := by decide
  obtain ⟨res, m, b, w', e, -, -, -, hd, hiff⟩ :=
    fat32Read_past hv hi (fun _ => 0xCC) hopen ho (show (600 : UInt32).toNat < 2 ^ 31 by decide) hbefore hpast
  obtain rfl := hiff.mpr fun _ _ _ => rfl
  have hd := hd rfl
  rw [hid, hh, hvol] at hd
  have hfirst : first = .ok ((true, some b), w') := e
  cases h3 : answer second with
  | none => rw [h3] at h2; cases h2
  | some r =>
    obtain ⟨ok, ob⟩ := r
    rw [h3] at h2
    cases ob with
    | none => simp at h2
    | some b' =>
      simp only [Option.map_some, Option.some.injEq, Prod.mk.injEq] at h2
      obtain ⟨rfl, hb'⟩ := h2
      have hw : after first = w' := by rw [hfirst]; rfl
      have hsecond := answer_some h3
      refine ⟨shortOpen, w', after second, b, b', hv, hopen, ho, by rw [hh]; decide, e, fun q hq => ?_, fun o ho => ?_,
        fun hc => ?_, by rw [← hw]; exact hsecond, hb', fun o ho => ?_⟩
      · have hq' : ¬ (0 ≤ q ∧ q < 0 + 512) := by omega
        exact (hd q).trans (if_neg hq')
      · rw [hvol] at ho ⊢
        exact (hother o ho).1
      · obtain ⟨_, _, _, -, -, hle, -⟩ := hc rfl
        rw [hid, hh, hvol] at hle
        exact absurd hle (by decide)
      · rw [hvol] at ho ⊢
        exact (hother o ho).2

end OpenGpos.Fat
