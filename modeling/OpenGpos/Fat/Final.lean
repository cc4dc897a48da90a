/-
  OpenGpos.Fat.Final — what further calls answer on an iterator that has come to its end. The
  code does not record the end: behind the 0x00 entry it goes on with what follows it, and
  at the end of the chain it takes its last sector again. A run of calls answers for the
  entries ahead one after the other (`goes_through`), so the end is final exactly on
  the directories of which `EndsForGood` holds (`end_final_iff`).
-/
import OpenGpos.Fat.RoundTrip
import OpenGpos.Fat.Turns
import OpenGpos.Lib.Fuel
import OpenGpos.Lib.Runs

namespace OpenGpos.Fat

open OpenGpos.Lib.Runs OpenGpos.Lib.Fuel

/-- What a call answers on an entry, if it stops there. -/
def outcome (e : Buf) : Option FatError :=
  if e 0 = 0 then some .noMoreEntries else if Reported e then some .success else none

def outcomes (es : List Buf) : List FatError := es.filterMap outcome

/-- The two ends. -/
def Ended (res : FatError) : Prop := res = .noMoreEntries ∨ res = .endOfChain

/-- A call on the iterator, with any record handed in and whatever else was read in between. -/
def Calls (env : Env) (v : VolumeInfo) (iter : DirIter) (res : FatError) (iter' : DirIter) : Prop :=
  ∃ fuel info w info' w', w.vol = v ∧ fatReadNextDirEntry env fuel iter info w = .ok ((res, iter', info'), w')

/-- An end is followed by ends only. -/
def Final (ls : List FatError) : Prop := ls.Pairwise fun res res' => Ended res → Ended res'

/-- No entry is reported behind an end mark, and none in the last cluster. -/
structure EndsForGood (env : Env) (v : VolumeInfo) (cs : List UInt32) : Prop where
  marked : (records env v cs).Pairwise fun e e' => e 0 = 0 → ¬Reported e'
  last : ∀ e ∈ (records env v cs).drop ((cs.length - 1) * (v.bpc / 32)), ¬Reported e

/-- How a call goes: turn by turn it takes what is ahead, up to an entry that it stops at. -/
inductive Called (env : Env) (v : VolumeInfo) (cs : List UInt32) : Nat → DirIter → FatError → Nat → DirIter → Prop
  | takes {q q' : Nat} {iter iter' : DirIter} {e : Buf} {res : FatError} (k : UInt8) : Looked env v cs q iter e q' iter' →
      outcome e = some res → Called env v cs q iter res q' { iter' with lfnChecksum := k }
  | skips {q q1 q' : Nat} {iter iter1 iter' : DirIter} {e : Buf} {res : FatError} (k : UInt8) : Looked env v cs q iter e q1 iter1 →
      outcome e = none → Called env v cs q1 { iter1 with lfnChecksum := k } res q' iter' →
        Called env v cs q iter res q' iter'
  | ends {q : Nat} {iter : DirIter} : OnCluster cs q iter → inBuffer iter = [] → q + 1 = cs.length →
      v.sectorsPerCluster.toNat ≤ (iter.currentSectorInCluster + 1).toNat →
        Called env v cs q iter .endOfChain q (moved iter)

section
variable {env : Env} {v : VolumeInfo} {cs : List UInt32} {q q' : Nat} {iter iter' : DirIter} {res : FatError}

theorem outcome_congr {e e' : Buf} (h : Agree e e') : outcome e = outcome e' := by
  unfold outcome
  simp only [h 0 (by omega), h.reported]

theorem outcome_ne {e : Buf} (h : outcome e = some res) : res = .noMoreEntries ∨ res = .success := by
  unfold outcome at h
  split at h
  · exact Or.inl (Option.some.inj h).symm
  · split at h
    · exact Or.inr (Option.some.inj h).symm
    · cases h

theorem outcome_success {e : Buf} : outcome e = some .success ↔ Reported e := by
  unfold outcome
  by_cases h0 : e 0 = 0
  · rw [if_pos h0]
    exact iff_of_false (by decide) fun hr => hr.1 h0
  · rw [if_neg h0]
    by_cases hr : Reported e
    · rw [if_pos hr]
      exact iff_of_true rfl hr
    · rw [if_neg hr]
      exact iff_of_false (by simp) hr

theorem success_mem {es : List Buf} : .success ∈ outcomes es ↔ ∃ e ∈ es, Reported e := by
  unfold outcomes
  simp only [List.mem_filterMap, outcome_success]

theorem ended_iff {e : Buf} (h : outcome e = some res) : Ended res ↔ res ≠ .success := by
  rcases outcome_ne h with rfl | rfl
  · exact iff_of_true (Or.inl rfl) (by decide)
  · exact iff_of_false (by rintro (h | h) <;> cases h) (by decide)

/-! ## A call -/

theorem Called.on (h : Called env v cs q iter res q' iter') : OnCluster cs q' iter' := by
  induction h with
  | takes k hl _ => exact ⟨hl.on.cluster, hl.on.entry⟩
  | skips k _ _ _ ih => exact ih
  | ends ho _ _ _ => exact ⟨ho.cluster, Nat.zero_le 16⟩

theorem Looked.loaded {e : Buf} (h : Looked env v cs q iter e q' iter') (hl : Loaded env v iter) :
    Loaded env v iter' := by
  rcases h.stepped with ⟨-, rfl⟩ | ⟨-, hl'⟩
  · exact hl
  · exact hl'

theorem Called.loaded (h : Called env v cs q iter res q' iter') (hl : Loaded env v iter) : Loaded env v iter' := by
  induction h with
  | takes k hk _ => exact hk.loaded hl
  | skips k hk _ _ ih => exact ih (hk.loaded hl)
  | ends _ _ _ _ => exact hl

/-- A call answers for the first entry ahead that it can stop at, or for the end of the chain. -/
theorem Called.answers (h : Called env v cs q iter res q' iter') :
    (outcomes (ahead env v cs q iter) = res :: outcomes (ahead env v cs q' iter') ∧ res ≠ .endOfChain) ∨
    (outcomes (ahead env v cs q iter) = [] ∧ res = .endOfChain ∧ q' + 1 = cs.length ∧ iter'.currentEntryInSector = 0 ∧
      v.sectorsPerCluster.toNat ≤ iter'.currentSectorInCluster.toNat) := by
  induction h with
  | takes k hl ho =>
    refine Or.inl ⟨?_, ?_⟩
    · rw [hl.takes]
      exact List.filterMap_cons_some ho
    · rcases outcome_ne ho with rfl | rfl <;> decide
  | @skips q q1 q' iter iter1 iter' e res k hl ho _ ih =>
    have heq : outcomes (ahead env v cs q iter) = outcomes (ahead env v cs q1 { iter1 with lfnChecksum := k }) := by
      rw [hl.takes]
      exact List.filterMap_cons_none ho
    rw [heq]
    exact ih
  | @ends q iter ho hnil hlast hx =>
    refine Or.inr ⟨?_, rfl, hlast, rfl, hx⟩
    unfold ahead
    rw [hnil, nothing_behind hlast hx]
    rfl

/-- Behind the last sector of the chain the counter moves with the ends only. -/
theorem Called.counts (h : Called env v cs q iter res q' iter') (hlast : q + 1 = cs.length)
    (hx : v.sectorsPerCluster.toNat ≤ (iter.currentSectorInCluster + 1).toNat) : q' = q ∧
      iter'.currentSectorInCluster = if res = .endOfChain then iter.currentSectorInCluster + 1 else iter.currentSectorInCluster := by
  -- the buffer is all that is ahead
  have stays : ∀ {q q' : Nat} {iter iter' : DirIter} {e : Buf}, Looked env v cs q iter e q' iter' → q + 1 = cs.length →
      v.sectorsPerCluster.toNat ≤ (iter.currentSectorInCluster + 1).toNat →
      q' = q ∧ iter'.currentSectorInCluster = iter.currentSectorInCluster := by
    intro q q' iter iter' e hl hlast hx
    rcases hl.stepped with ⟨hq, rfl⟩ | ⟨hnil, -⟩
    · exact ⟨hq, rfl⟩
    · have ht := hl.takes
      unfold ahead at ht
      rw [hnil, nothing_behind hlast hx] at ht
      cases ht
  induction h with
  | takes k hl ho =>
    obtain ⟨hq, hc⟩ := stays hl hlast hx
    have hne := outcome_ne ho
    refine ⟨hq, ?_⟩
    rw [if_neg (by rcases hne with rfl | rfl <;> decide)]
    exact hc
  | @skips q q1 q' iter iter1 iter' e res k hl ho _ ih =>
    obtain ⟨rfl, hc⟩ := stays hl hlast hx
    have hc' : ({ iter1 with lfnChecksum := k } : DirIter).currentSectorInCluster = iter.currentSectorInCluster := hc
    rw [hc'] at ih
    exact ih hlast hx
  | ends _ _ _ _ => exact ⟨rfl, (if_pos rfl).symm⟩

end

/-- More fuel does not change an answer. -/
theorem readDirLoop_mono {env : Env} {fuel : Nat} : ∀ {m : Nat} {iter : DirIter} {l : LfnLocals} {info : FileInfo}
    {w : World} {r : (FatError × DirIter × FileInfo) × World}, fuel ≤ m → readDirLoop env fuel iter l info w = .ok r →
    readDirLoop env m iter l info w = .ok r := by
  induction fuel with
  | zero => intro m iter l info w r _ h; cases h
  | succ fuel ih =>
    intro m iter l info w r hm h
    obtain ⟨m, rfl⟩ := Nat.exists_eq_add_one_of_ne_zero (show m ≠ 0 by omega)
    simp only [readDirLoop, bind_apply] at h ⊢
    cases ht : dirTurn env iter l info w with
    | error e => rw [ht] at h; cases h
    | ok t =>
      obtain ⟨t, w1⟩ := t
      rw [ht, ok_bind] at h
      rw [ok_bind]
      cases t with
      | done res iter' info' => exact h
      | again iter' l' info' => exact ih (by omega) h

section
variable {env : Env} {v : VolumeInfo} {cs : List UInt32} (hv : v.WellFormed) (ha : ∀ k, env.fails k = false)
    (hch : Chain env v cs)
include hv ha hch

theorem readDirLoop_called (n : Nat) : ∀ {q : Nat} {iter : DirIter} {w : World}, w.vol = v → OnCluster cs q iter →
    (ahead env v cs q iter).length < n → ∀ (l : LfnLocals) (info : FileInfo), ∃ res q' iter' info' w',
      Called env v cs q iter res q' iter' ∧ readDirLoop env n iter l info w = .ok ((res, iter', info'), w') := by
  induction n with
  | zero => exact fun _ _ hn => absurd hn (Nat.not_lt_zero _)
  | succ n ih =>
    intro q iter w hw ho hn l info
    subst hw
    rcases dirTurn_looks l info hv hch ho with ⟨r, e, q1, iter1, w1, he, hl, -, hvol, ht⟩ | ⟨hfails, -⟩ |
      ⟨hnil, hlast, hx, w1, hvol, ht⟩
    · have hlen : (ahead env w.vol cs q iter).length = (ahead env w.vol cs q1 iter1).length + 1 := by rw [hl.takes]; rfl
      by_cases h0 : r 0 = 0
      · rw [entryTurn_ends he iter1 l info h0] at ht
        exact ⟨_, q1, _, _, _, .takes iter1.lfnChecksum hl (if_pos h0), readDirLoop_done ht n⟩
      by_cases hr : Reported r
      · rw [entryTurn_reports he iter1 l info hr] at ht
        exact ⟨_, q1, _, _, _, .takes 0 hl (outcome_success.mpr hr), readDirLoop_done ht n⟩
      · obtain ⟨k, l', info1, et⟩ := entryTurn_skips he iter1 l info h0 hr
        have hnone : outcome r = none := (if_neg h0).trans (if_neg hr)
        rw [et] at ht
        have ho1 : OnCluster cs q1 { iter1 with lfnChecksum := k } := ⟨hl.on.cluster, hl.on.entry⟩
        obtain ⟨res, q', iter', info', w', hc, e⟩ :=
          ih hvol ho1 (show (ahead env w.vol cs q1 iter1).length < n by omega) l' info1
        exact ⟨res, q', iter', info', w', .skips k hl hnone hc, (readDirLoop_again ht n).trans e⟩
    · obtain ⟨k, -, hk⟩ := hfails.fails
      exact absurd hk (by rw [ha]; decide)
    · exact ⟨_, q, _, _, _, .ends ho hnil hlast hx, readDirLoop_done ht n⟩

/-- Every call returns. -/
theorem call_settles {q : Nat} {iter : DirIter} {w : World} (hw : w.vol = v) (ho : OnCluster cs q iter)
    (info : FileInfo) :
    ∃ res q' iter' info' w', Called env v cs q iter res q' iter' ∧
      Settles (fun fuel => fatReadNextDirEntry env fuel iter info w) (.ok ((res, iter', info'), w')) := by
  have hi : w.vol.isInitialized = true := by rw [hw]; exact hv.initialized
  obtain ⟨res, q', iter', info', w', hc, e⟩ :=
      readDirLoop_called hv ha hch _ (w := { w with frames := w.frames + 1 }) hw ho
    (Nat.lt_succ_self _) (env.stack w.frames) info
  refine ⟨res, q', iter', info', w', hc, (ahead env v cs q iter).length + 1, fun fuel hf => ?_⟩
  simp only [fatReadNextDirEntry, bind_apply, get_apply, ok_bind, hi, Bool.not_true, Bool.false_eq_true, if_false,
      modify_apply]
  exact readDirLoop_mono hf e

theorem Calls.called {q : Nat} {iter iter' : DirIter} {res : FatError} (h : Calls env v iter res iter')
    (ho : OnCluster cs q iter) :
    ∃ q', Called env v cs q iter res q' iter' := by
  obtain ⟨fuel, info, w, info', w', hw, e⟩ := h
  obtain ⟨res1, q', iter1, info1, w1, hc, n, hn⟩ := call_settles hv ha hch hw ho info
  have hi : w.vol.isInitialized = true := by rw [hw]; exact hv.initialized
  have e' : fatReadNextDirEntry env (max n fuel) iter info w = .ok ((res, iter', info'), w') := by
    simp only [fatReadNextDirEntry, bind_apply, get_apply, ok_bind, hi, Bool.not_true, Bool.false_eq_true, if_false,
      modify_apply] at e ⊢
    exact readDirLoop_mono (Nat.le_max_right n fuel) e
  have hn' := hn _ (Nat.le_max_left n fuel)
  dsimp only at hn'
  rw [hn'] at e'
  cases e'
  exact ⟨q', hc⟩

theorem exists_calls {q : Nat} {iter : DirIter} (ho : OnCluster cs q iter) :
    ∃ res q' iter', Called env v cs q iter res q' iter' ∧ Calls env v iter res iter' := by
  obtain ⟨res, q', iter', info', w', hc, n, hn⟩ :=
      call_settles hv ha hch (w := { World.boot with vol := v }) rfl ho default
  exact ⟨res, q', iter', hc, n, default, _, info', w', rfl, hn n (Nat.le_refl n)⟩

/-- The calls up to the next end of the chain answer for what is ahead, entry by entry. -/
theorem goes_through (n : Nat) : ∀ {q : Nat} {iter : DirIter}, OnCluster cs q iter →
    (outcomes (ahead env v cs q iter)).length = n →
    ∃ q' iter', Run (Calls env v) iter (outcomes (ahead env v cs q iter) ++ [.endOfChain]) iter' ∧
      OnCluster cs q' iter' ∧
      q' + 1 = cs.length ∧ v.sectorsPerCluster.toNat ≤ iter'.currentSectorInCluster.toNat ∧
      (q + 1 = cs.length → v.sectorsPerCluster.toNat ≤ (iter.currentSectorInCluster + 1).toNat →
        iter'.currentSectorInCluster = iter.currentSectorInCluster + 1) := by
  induction n with
  | zero =>
    intro q iter ho hn
    obtain ⟨res, q', iter', hc, hs⟩ := exists_calls hv ha hch ho
    have hnil := List.length_eq_zero_iff.mp hn
    rcases hc.answers with ⟨h, -⟩ | ⟨-, rfl, hlast, -, hx⟩
    · rw [hnil] at h
      cases h
    · rw [hnil]
      refine ⟨q', iter', .cons hs (.nil _), hc.on, hlast, hx, fun h1 h2 => ?_⟩
      rw [(hc.counts h1 h2).2, if_pos rfl]
  | succ n ih =>
    intro q iter ho hn
    obtain ⟨res, q1, iter1, hc, hs⟩ := exists_calls hv ha hch ho
    rcases hc.answers with ⟨h, hne⟩ | ⟨hnil, -⟩
    · rw [h, List.length_cons] at hn
      obtain ⟨q', iter', hr, ho', hlast, hx, hcount⟩ := ih hc.on (Nat.succ.inj hn)
      rw [h, List.cons_append]
      refine ⟨q', iter', .cons hs hr, ho', hlast, hx, fun h1 h2 => ?_⟩
      obtain ⟨rfl, hsame⟩ := hc.counts h1 h2
      rw [if_neg hne] at hsame
      rw [hsame] at hcount
      exact hcount h1 h2
    · rw [hnil] at hn
      cases hn

/-- The counter is counted up by the ends until it wraps. -/
theorem wraps {q : Nat} (hlast : q + 1 = cs.length) (n : Nat) : ∀ {iter : DirIter}, OnCluster cs q iter →
    v.sectorsPerCluster.toNat ≤ iter.currentSectorInCluster.toNat → iter.currentSectorInCluster.toNat + n = 2 ^ 32 - 1 →
    ∃ ls iter', Run (Calls env v) iter ls iter' ∧ OnCluster cs q iter' ∧ iter'.currentSectorInCluster = 0xFFFFFFFF := by
  induction n with
  | zero =>
    intro iter ho _ hn
    exact ⟨[], iter, .nil iter, ho, UInt32.toNat_inj.mp hn⟩
  | succ n ih =>
    intro iter ho hx hn
    have hsucc : (iter.currentSectorInCluster + 1).toNat = iter.currentSectorInCluster.toNat + 1 := by
      rw [UInt32.toNat_add]
      exact Nat.mod_eq_of_lt (show iter.currentSectorInCluster.toNat + 1 < 2 ^ 32 by omega)
    obtain ⟨q', iter1, hr, ho1, hlast1, hx1, hcount⟩ := goes_through hv ha hch _ ho rfl
    obtain rfl : q' = q := by omega
    have hc := hcount hlast (by omega)
    obtain ⟨ls, iter', hr', ho', h'⟩ := ih ho1 hx1 (by rw [hc]; omega)
    exact ⟨_, iter', hr.append hr', ho', h'⟩

end

/-! ## What is final -/

/-- Nothing that is ahead will be reported. -/
structure Spent (env : Env) (v : VolumeInfo) (cs : List UInt32) (q : Nat) (iter : DirIter) : Prop where
  on : OnCluster cs q iter
  loaded : Loaded env v iter
  none : .success ∉ outcomes (ahead env v cs q iter)

/-- An end mark that is ahead has no entry behind it. -/
structure Good (env : Env) (v : VolumeInfo) (cs : List UInt32) (q : Nat) (iter : DirIter) : Prop where
  on : OnCluster cs q iter
  loaded : Loaded env v iter
  final : Final (outcomes (ahead env v cs q iter))

/-- Every call answers, and an end is final, for any calls on a fresh iterator. -/
def EndIsFinal (env : Env) (v : VolumeInfo) (c : UInt32) : Prop :=
  ∀ ls iter, Run (Calls env v) (freshIter c) ls iter → Final ls ∧ ∀ info w, w.vol = v → ∃ res iter' info' w',
    Settles (fun fuel => fatReadNextDirEntry env fuel iter info w) (.ok ((res, iter', info'), w'))

theorem final_outcomes {es : List Buf} : Final (outcomes es) ↔ es.Pairwise fun e e' => e 0 = 0 → ¬Reported e' := by
  unfold Final outcomes
  rw [List.pairwise_filterMap]
  refine List.Pairwise.iff fun e e' => ⟨fun h h0 hr => ?_, fun h res ho res' ho' he => ?_⟩
  · have hends : Ended .success := h _ (if_pos h0) _ (outcome_success.mpr hr) (Or.inl rfl)
    rcases hends with h | h <;> cases h
  · have h0 : e 0 = 0 := by
      by_contra h0
      have hr : Reported e := by
        by_contra hr
        have hnone : outcome e = none := (if_neg h0).trans (if_neg hr)
        rw [hnone] at ho
        cases ho
      rw [outcome_success.mpr hr] at ho
      exact (ended_iff (outcome_success.mpr hr)).mp (Option.some.inj ho ▸ he) rfl
    refine (ended_iff ho').mpr fun hs => h h0 ?_
    rw [hs] at ho'
    exact outcome_success.mp ho'

theorem outcomes_bytes (es : List Buf) : outcomes (es.map entryBytes) = outcomes es := by
  unfold outcomes
  rw [List.filterMap_map]
  exact List.filterMap_congr fun e _ => (outcome_congr (entryBytes_agree e)).symm

section
variable {env : Env} {v : VolumeInfo} {cs : List UInt32}

theorem fromSector_mem {p p' : Nat} (h : p ≤ p') {e : Buf} (he : e ∈ fromSector env v cs p') :
    e ∈ fromSector env v cs p := by
  obtain ⟨k, rfl⟩ := Nat.exists_eq_add_of_le h
  unfold fromSector at he ⊢
  rw [Nat.mul_add, ← List.drop_drop] at he
  exact List.mem_of_mem_drop he

/-- Whatever is ahead of an iterator on the last cluster that starts over in its buffer is of that cluster. -/
theorem ahead_last (hv : v.WellFormed) (hch : Chain env v cs) {q : Nat} {iter : DirIter} (ho : OnCluster cs q iter)
    (hl : Loaded env v iter) (hentry : iter.currentEntryInSector = 0) {e : Buf} (he : e ∈ ahead env v cs q iter) :
    e ∈ fromSector env v cs (q * v.sectorsPerCluster.toNat) := by
  rw [ahead_reset v hentry, List.mem_append] at he
  rcases he with he | he
  · by_cases hvalid : iter.sectorBufferValid = true
    · rw [if_pos hvalid] at he
      obtain ⟨s, hs, hbuf⟩ := hl hvalid
      rw [hbuf] at he
      refine fromSector_mem (Nat.le_add_right _ s) ?_
      rw [fromSector_sector hv hch ho.cluster hs]
      exact List.mem_append_left _ he
    · rw [if_neg hvalid] at he
      cases he
  · refine fromSector_mem ?_ he
    unfold nextSector
    split
    · exact Nat.le_add_right _ _
    · exact Nat.mul_le_mul_right _ (Nat.le_succ q)

theorem last_cluster {q : Nat} (hlast : q + 1 = cs.length) :
    16 * (q * v.sectorsPerCluster.toNat) = (cs.length - 1) * (v.bpc / 32) := by
  have h : v.bpc / 32 = 16 * v.sectorsPerCluster.toNat := by
    show v.sectorsPerCluster.toNat * 512 / 32 = _
    omega
  rw [h, ← hlast, Nat.add_sub_cancel, Nat.mul_left_comm]

theorem reported_bytes {e : Buf} : Reported (entryBytes e) ↔ Reported e := (entryBytes_agree e).reported.symm

/-- The records of the last cluster that are reported. -/
theorem last_reported {q : Nat} (hlast : q + 1 = cs.length) :
    (∃ e ∈ fromSector env v cs (q * v.sectorsPerCluster.toNat), Reported e) ↔
      ∃ e ∈ (records env v cs).drop ((cs.length - 1) * (v.bpc / 32)), Reported e := by
  unfold fromSector
  rw [last_cluster hlast, ← List.map_drop]
  simp only [List.mem_map, exists_exists_and_eq_and, reported_bytes]

end

section
variable {env : Env} {v : VolumeInfo} {cs : List UInt32} {q q' : Nat} {iter iter' : DirIter} {res : FatError}
  (hv : v.WellFormed) (hch : Chain env v cs)
include hv hch

/-- At the end of the chain the last cluster is all that is left to take. -/
theorem EndsForGood.spent (h : EndsForGood env v cs) (ho : OnCluster cs q iter) (hl : Loaded env v iter)
    (hlast : q + 1 = cs.length) (hentry : iter.currentEntryInSector = 0) : Spent env v cs q iter := by
  refine ⟨ho, hl, fun hs => ?_⟩
  obtain ⟨e, he, hr⟩ := success_mem.mp hs
  obtain ⟨e', he', hr'⟩ := (last_reported hlast).mp ⟨e, ahead_last hv hch ho hl hentry he, hr⟩
  exact h.last e' he' hr'

theorem Spent.called (h : EndsForGood env v cs) (hs : Spent env v cs q iter)
    (hc : Called env v cs q iter res q' iter') :
    Ended res ∧ Spent env v cs q' iter' := by
  rcases hc.answers with ⟨heq, hne⟩ | ⟨-, hres, hlast, hentry, -⟩
  · have hnone := hs.none
    rw [heq, List.mem_cons, not_or] at hnone
    have hmem : res ∈ outcomes (ahead env v cs q iter) := by
      rw [heq]
      exact List.mem_cons_self
    obtain ⟨e, -, ho⟩ := List.mem_filterMap.mp hmem
    exact ⟨(ended_iff ho).mpr fun hr => hnone.1 hr.symm, hc.on, hc.loaded hs.loaded, hnone.2⟩
  · exact ⟨Or.inr hres, h.spent hv hch hc.on (hc.loaded hs.loaded) hlast hentry⟩

/-- A call leaves a good state, and after an end a spent one. -/
theorem Good.called (h : EndsForGood env v cs) (hg : Good env v cs q iter) (hc : Called env v cs q iter res q' iter') :
    Good env v cs q' iter' ∧ (Ended res → Spent env v cs q' iter') := by
  have hl := hc.loaded hg.loaded
  rcases hc.answers with ⟨heq, -⟩ | ⟨-, -, hlast, hentry, -⟩
  · have hf := hg.final
    rw [heq] at hf
    obtain ⟨h1, h2⟩ := List.pairwise_cons.mp hf
    refine ⟨⟨hc.on, hl, h2⟩, fun he => ⟨hc.on, hl, fun hs => ?_⟩⟩
    rcases h1 _ hs he with h | h <;> cases h
  · have hs := h.spent hv hch hc.on hl hlast hentry
    refine ⟨⟨hc.on, hl, ?_⟩, fun _ => hs⟩
    refine List.pairwise_of_forall_mem_list fun o _ o' ho' _ => ?_
    obtain ⟨e, -, he⟩ := List.mem_filterMap.mp ho'
    exact (ended_iff he).mpr fun hsucc => hs.none (hsucc ▸ ho')

end

section
variable {env : Env} {v : VolumeInfo} {cs : List UInt32} (hv : v.WellFormed) (ha : ∀ k, env.fails k = false)
    (hch : Chain env v cs)
include hv ha hch

theorem run_spent (h : EndsForGood env v cs) {iter iter' : DirIter} {ls : List FatError}
    (hr : Run (Calls env v) iter ls iter') :
    ∀ q, Spent env v cs q iter → ∀ res ∈ ls, Ended res := by
  induction hr with
  | nil => exact fun _ _ res hres => absurd hres List.not_mem_nil
  | cons hs _ ih =>
    intro q hq res hres
    obtain ⟨q', hc⟩ := hs.called hv ha hch hq.on
    obtain ⟨he, hq'⟩ := hq.called hv hch h hc
    rcases List.mem_cons.mp hres with rfl | hres
    · exact he
    · exact ih q' hq' res hres

theorem run_good (h : EndsForGood env v cs) {iter iter' : DirIter} {ls : List FatError}
    (hr : Run (Calls env v) iter ls iter') :
    ∀ q, Good env v cs q iter → Final ls := by
  induction hr with
  | nil => exact fun _ _ => List.Pairwise.nil
  | cons hs hr ih =>
    intro q hq
    obtain ⟨q', hc⟩ := hs.called hv ha hch hq.on
    obtain ⟨hq', hend⟩ := hq.called hv hch h hc
    exact List.pairwise_cons.mpr ⟨fun res hres he => run_spent hv ha hch h hr q' (hend he) res hres, ih q' hq'⟩

theorem run_on {iter iter' : DirIter} {ls : List FatError} (hr : Run (Calls env v) iter ls iter')
    (h : ∃ q, OnCluster cs q iter) :
    ∃ q, OnCluster cs q iter' := by
  have hstep : ∀ s res t, (∃ q, OnCluster cs q s) → Calls env v s res t → ∃ q, OnCluster cs q t := by
    intro s res t hs ht
    obtain ⟨q, hq⟩ := hs
    obtain ⟨q', hc⟩ := ht.called hv ha hch hq
    exact ⟨q', hc.on⟩
  exact hr.invariant hstep h

/-- The end of a directory is final exactly if no entry is reported behind an end mark and
    none in the last cluster. An entry of the last sector comes again right behind the end of
    the chain, one of another sector of the last cluster once 2^32 such answers have
    wrapped the sector counter. -/
theorem end_final_iff {c : UInt32} (hc : cs[0]? = some c) : EndIsFinal env v c ↔ EndsForGood env v cs := by
  have ho := freshIter_on hc
  have hall : outcomes (ahead env v cs 0 (freshIter c)) = outcomes (records env v cs) := by
    rw [ahead_fresh hv, outcomes_bytes]
  constructor
  · intro h
    obtain ⟨q, iter1, hr1, ho1, hlast, hx1, -⟩ := goes_through hv ha hch _ ho rfl
    rw [hall] at hr1
    refine ⟨final_outcomes.mp (List.pairwise_append.mp (h _ _ hr1).1).1, fun e he hr => ?_⟩
    -- past the wrap the last cluster is ahead once more
    obtain ⟨ls, iter2, hr2, ho2, hx2⟩ := wraps hv ha hch hlast (2 ^ 32 - 1 - iter1.currentSectorInCluster.toNat) ho1 hx1
      (by have := iter1.currentSectorInCluster.toNat_lt; omega)
    obtain ⟨q3, iter3, hr3, -⟩ := goes_through hv ha hch _ ho2 rfl
    have hnext : nextSector v q iter2.currentSectorInCluster = q * v.sectorsPerCluster.toNat := by
      unfold nextSector
      rw [hx2]
      exact if_pos hv.sectors.spc_pos
    obtain ⟨e', he', hr'⟩ := (last_reported hlast).mpr ⟨e, he, hr⟩
    have hs : .success ∈ outcomes (ahead env v cs q iter2) := by
      refine success_mem.mpr ⟨e', ?_, hr'⟩
      unfold ahead
      rw [hnext]
      exact List.mem_append_right _ he'
    have hf := (h _ _ (hr1.append (hr2.append hr3))).1
    have hbad := (List.pairwise_append.mp hf).2.2 .endOfChain (by simp) .success
      (List.mem_append_right _ (List.mem_append_left _ hs)) (Or.inr rfl)
    rcases hbad with h | h <;> cases h
  · intro h ls iter hr
    have hgood : Good env v cs 0 (freshIter c) := by
      refine ⟨ho, fun hvalid => (Bool.false_ne_true hvalid).elim, ?_⟩
      rw [hall]
      exact final_outcomes.mpr h.marked
    refine ⟨run_good hv ha hch h hr 0 hgood, fun info w hw => ?_⟩
    obtain ⟨q, hq⟩ := run_on hv ha hch hr ⟨0, ho⟩
    obtain ⟨res, -, iter', info', w', -, hs⟩ := call_settles hv ha hch hw hq info
    exact ⟨res, iter', info', w', hs⟩

end

/-- Two files and deleted entries in the first cluster, a deleted entry and the end mark in the last one. -/
theorem end_final_spread : EndIsFinal (spreadDisk (plainEntry 0x41 0x20 3 200 ++ plainEntry 0x42 0x20 7 9 ++ deletedEntries 14)
    (deletedEntries 1)) sampleVolume 2 := by
  refine (end_final_iff sampleVolume_wellFormed (fun _ => rfl) (spreadDisk_chain _ _ _) rfl).mpr ⟨?_, ?_⟩
  · decide +kernel
  · decide +kernel

/-- A root directory with the file `A`, the end mark, and what is left of the entry of a file `B`. -/
def staleEntries : List UInt8 :=
  (0x41 :: List.replicate 10 0x20 ++ 0x20 :: List.replicate 20 0) ++ List.replicate 32 0 ++
    (0x42 :: List.replicate 10 0x20 ++ 0x20 :: List.replicate 20 0)

/-- The third call reports `B`. -/
theorem end_not_final : ¬EndIsFinal (rootDisk staleEntries) sampleVolume 2 := by
  intro h
  have ho : OnCluster [2] 0 (freshIter 2) := freshIter_on rfl
  obtain ⟨q, iter, hr, -⟩ := goes_through sampleVolume_wellFormed (fun _ => rfl) (rootDisk_chain staleEntries) _ ho rfl
  have hall : outcomes (records (rootDisk staleEntries) sampleVolume [2]) =
      .success :: .noMoreEntries :: .success :: List.replicate 13 .noMoreEntries := by decide +kernel
  rw [ahead_fresh sampleVolume_wellFormed, outcomes_bytes, hall] at hr
  have hrest := (List.pairwise_cons.mp (h _ _ hr).1).2
  have hends : Ended .success := List.rel_of_pairwise_cons hrest (by simp) (Or.inl rfl)
  rcases hends with h | h <;> cases h

end OpenGpos.Fat
