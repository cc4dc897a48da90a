/-
  OpenGpos.Fat.Parent — paths through `..`. In a tree whose iterators end on known answers the
  result of `get_file` is a function of the components (`resolve`, `getFile_resolves`). The `..`
  of a directory leads to its parent's cluster, but below the root it holds 0, which
  `fatClusterToLba` takes for sector 0 of the card: so `d/s/../r` resolves as `d/r` does exactly
  if `d` is not the root, or `r` leads from sector 0 to the same (`parent_resolves_iff`).
-/
import OpenGpos.Fat.Final
import OpenGpos.Fat.Lookup
import OpenGpos.Fat.Retry

namespace OpenGpos.Fat

open OpenGpos.Lib.Fuel

def dot : List UInt8 := [0x2E]

def dotdot : List UInt8 := [0x2E, 0x2E]

/-- What `get_file` makes of a path from the directory on cluster `c` on, where the iterator of a
    directory ends on `last`. -/
def resolve (dir : UInt32 → List DirItem) (last : UInt32 → FatError) :
    UInt32 → List (List UInt8) → FatError × Option DirItem
  | _, [] => (.fileNotFound, none)
  | c, [name] =>
    match (dir c).find? fun item => item.name = name with
    | some item => if item.isDirectory then (.fileNotFound, none) else (.success, some item)
    | none => (refusal (last c), none)
  | c, name :: next :: rest =>
    if name = [] then resolve dir last c (next :: rest)
    else
      match directoryIn (dir c) name with
      | some item => resolve dir last item.firstCluster (next :: rest)
      | none => (refusal (last c), none)

/-- The directory that these components lead to. -/
def enter (dir : UInt32 → List DirItem) : UInt32 → List (List UInt8) → Option UInt32
  | c, [] => some c
  | c, name :: rest =>
    if name = [] then enter dir c rest
    else
      match directoryIn (dir c) name with
      | some item => enter dir item.firstCluster rest
      | none => none

/-- The directories of a volume: the root and what lies below it, each under its own name. -/
inductive Directory (dir : UInt32 → List DirItem) (root : UInt32) : UInt32 → Prop
  | root : Directory dir root root
  | sub {c : UInt32} {item : DirItem} : Directory dir root c → item ∈ dir c → item.isDirectory = true →
      item.name ≠ dot →
      item.name ≠ dotdot → Directory dir root item.firstCluster

/-- The `..` of a directory holds its parent's first cluster, or 0 when the parent is the root. -/
def HasParents (dir : UInt32 → List DirItem) (root : UInt32) : Prop :=
  ∀ c, Directory dir root c → ∀ item ∈ dir c, item.isDirectory = true → item.name ≠ dot → item.name ≠ dotdot →
    ∃ up, directoryIn (dir item.firstCluster) dotdot = some up ∧ up.firstCluster = if c = root then 0 else c

/-- `get_file` returns the same on both paths, with the same file if it finds one. -/
def SameResult (env : Env) (w : World) (path path' : List UInt8) : Prop :=
  ∃ res file file' w1 w2, Settles (fun fuel => getFile env fuel path default w) (.ok ((res, file), w1)) ∧
    Settles (fun fuel => getFile env fuel path' default w) (.ok ((res, file'), w2)) ∧
      (res = .success → file.item = file'.item)

/-! ## The tree -/

section
variable {dir : UInt32 → List DirItem} {last : UInt32 → FatError}

theorem resolve_through {c : UInt32} {name : List UInt8} {rest : List (List UInt8)} (hr : rest ≠ []) :
    resolve dir last c (name :: rest) = if name = [] then resolve dir last c rest
      else match directoryIn (dir c) name with
        | some item => resolve dir last item.firstCluster rest
        | none => (refusal (last c), none) := by
  obtain ⟨next, more, rfl⟩ := List.exists_cons_of_ne_nil hr
  rfl

/-- What is left of a path is resolved from the directory that was entered. -/
theorem resolve_append (ds : List (List UInt8)) {rs : List (List UInt8)} (hr : rs ≠ []) :
    ∀ {c c' : UInt32}, enter dir c ds = some c' →
    resolve dir last c (ds ++ rs) = resolve dir last c' rs := by
  induction ds with
  | nil =>
    intro c c' h
    cases h
    rfl
  | cons name ds ih =>
    intro c c' h
    rw [List.cons_append, resolve_through (List.append_ne_nil_of_right_ne_nil ds hr)]
    rw [enter] at h
    by_cases hnil : name = []
    · rw [if_pos hnil] at h ⊢
      exact ih h
    · rw [if_neg hnil] at h ⊢
      cases hd : directoryIn (dir c) name with
      | none =>
        rw [hd] at h
        cases h
      | some item =>
        rw [hd] at h
        exact ih h

theorem directoryIn_some {items : List DirItem} {item : DirItem} (hmem : item ∈ items) (hd : item.isDirectory = true) :
    ∃ item', directoryIn items item.name = some item' ∧ item' ∈ items ∧ item'.isDirectory = true ∧ item'.name =
      item.name := by
  cases h : directoryIn items item.name with
  | none =>
    have hnone := List.find?_eq_none.mp h item hmem
    rw [decide_eq_true_eq] at hnone
    exact absurd ⟨hd, rfl⟩ hnone
  | some item' =>
    have hsel := List.find?_some h
    rw [decide_eq_true_eq] at hsel
    exact ⟨item', rfl, List.mem_of_find?_eq_some h, hsel⟩

/-- Down into a subdirectory and up again. -/
theorem resolve_parent {root c : UInt32} (hp : HasParents dir root) (hdir : Directory dir root c) {sub : DirItem}
    (hmem : sub ∈ dir c)
    (hd : sub.isDirectory = true) (hnil : sub.name ≠ []) (h1 : sub.name ≠ dot) (h2 : sub.name ≠ dotdot) {rs : List (List UInt8)}
    (hr : rs ≠ []) : resolve dir last c (sub.name :: dotdot :: rs) = resolve dir last (if c = root then 0 else c) rs :=
    by
  obtain ⟨sub', hsub, hmem', hd', hname⟩ := directoryIn_some hmem hd
  rw [← hname] at h1 h2
  obtain ⟨up, hup, hcluster⟩ := hp c hdir sub' hmem' hd' h1 h2
  rw [resolve_through (List.cons_ne_nil _ _), if_neg hnil, hsub]
  show resolve dir last sub'.firstCluster (dotdot :: rs) = _
  rw [resolve_through hr, if_neg (by decide), hup]
  show resolve dir last up.firstCluster rs = _
  rw [hcluster]

/-- The answer that is in the tree. -/
theorem PathTo.resolve {res : FatError} {file : FileInfo} (names : List (List UInt8)) : ∀ {c : UInt32},
    PathTo dir (fun c r => r = last c) c names res file →
    OpenGpos.Fat.resolve dir last c names = (res, if res = .success then some file.item else none) := by
  induction names with
  | nil => exact fun h => h.elim
  | cons name names ih =>
    intro c h
    cases names with
    | nil =>
      unfold PathTo at h
      unfold OpenGpos.Fat.resolve
      cases hf : (dir c).find? fun item => item.name = name with
      | none =>
        rw [hf] at h
        obtain ⟨r, hne, rfl, rfl⟩ := h
        rw [if_neg (refusal_ne_success hne)]
      | some item =>
        rw [hf] at h
        by_cases hd : item.isDirectory = true
        · simp only [if_pos hd] at h ⊢
          rw [h]
          rfl
        · simp only [if_neg hd] at h ⊢
          rw [h.1, h.2]
          rfl
    | cons next rest =>
      rw [PathTo] at h
      rw [resolve_through (List.cons_ne_nil _ _)]
      by_cases hnil : name = []
      · rw [if_pos hnil] at h ⊢
        exact ih h
      · rw [if_neg hnil] at h ⊢
        cases hd : directoryIn (dir c) name with
        | none =>
          rw [hd] at h
          obtain ⟨r, hne, rfl, rfl⟩ := h
          show (refusal (last c), none) = _
          rw [if_neg (refusal_ne_success hne)]
        | some item =>
          rw [hd] at h
          exact ih h

end

section
variable {env : Env} {w : World} {dir : UInt32 → List DirItem} {last : UInt32 → FatError}
    (hi : w.vol.isInitialized = true)
  (ht : TreeTo env w.vol dir fun c res => res = last c)
include hi ht

theorem getFile_resolves {path : List UInt8} (h0 : ∀ x ∈ path, x ≠ 0) : ∃ res file w1,
    Settles (fun fuel => getFile env fuel (0x2F :: path) default w) (.ok ((res, file), w1)) ∧
    resolve dir last w.vol.rootDirCluster (components path) = (res, if res = .success then some file.item else none) :=
      by
  obtain ⟨res, file, w1, -, hp, hs⟩ := walkPath_to hi ht default _ (Nat.lt_succ_self path.length) h0 rfl .root default
  have e := fatInitRootDirIterator_apply hi default w.vol.rootDirCluster
  refine ⟨res, file, w1, ?_, hp.resolve⟩
  simp only [getFile, bind_apply, get_apply, ok_bind, e, ne_eq, not_true_eq_false, if_false]
  exact hs

theorem sameResult_iff {path path' : List UInt8} (h0 : ∀ x ∈ path, x ≠ 0) (h0' : ∀ x ∈ path', x ≠ 0) :
    SameResult env w (0x2F :: path) (0x2F :: path') ↔
      resolve dir last w.vol.rootDirCluster (components path) =
        resolve dir last w.vol.rootDirCluster (components path') := by
  obtain ⟨res, file, w1, hs, e⟩ := getFile_resolves hi ht h0
  obtain ⟨res', file', w2, hs', e'⟩ := getFile_resolves hi ht h0'
  rw [e, e']
  constructor
  · intro h
    obtain ⟨r, f, f', v1, v2, h1, h2, hsame⟩ := h
    cases h1.unique hs
    cases h2.unique hs'
    refine Prod.ext rfl ?_
    by_cases hr : res = .success
    · simp only [if_pos hr, hsame hr]
    · simp only [if_neg hr]
  · intro h
    obtain ⟨rfl, hfile⟩ := Prod.ext_iff.mp h
    refine ⟨res, file, file', w1, w2, hs, hs', fun hr => ?_⟩
    simp only [if_pos hr] at hfile
    exact Option.some.inj hfile

/-- From a directory `d` down into a subdirectory and up again by `..` the rest of a path resolves
    as it does from `d`, exactly if `d` is not the root or the rest resolves from cluster 0 as
    from the root. -/
theorem parent_resolves_iff (hp : HasParents dir w.vol.rootDirCluster) {ds rs : List (List UInt8)} {c : UInt32}
    (hd : enter dir w.vol.rootDirCluster ds = some c) (hdir : Directory dir w.vol.rootDirCluster c) {sub : DirItem}
    (hmem : sub ∈ dir c) (hsub : sub.isDirectory = true) (hnil : sub.name ≠ []) (h1 : sub.name ≠ dot) (h2 : sub.name ≠ dotdot)
    (hr : rs ≠ []) {path path' : List UInt8} (h0 : ∀ x ∈ path, x ≠ 0) (h0' : ∀ x ∈ path', x ≠ 0)
    (hpath : components path = ds ++ sub.name :: dotdot :: rs) (hpath' : components path' = ds ++ rs) :
    SameResult env w (0x2F :: path) (0x2F :: path') ↔
      c ≠ w.vol.rootDirCluster ∨ resolve dir last 0 rs = resolve dir last w.vol.rootDirCluster rs := by
  rw [sameResult_iff hi ht h0 h0', hpath, hpath', resolve_append ds (List.cons_ne_nil _ _) hd, resolve_append ds hr hd,
    resolve_parent hp hdir hmem hsub hnil h1 h2 hr]
  by_cases hc : c = w.vol.rootDirCluster
  · rw [if_pos hc, hc]
    exact (or_iff_right fun h => h rfl).symm
  · rw [if_neg hc]
    exact iff_of_true rfl (Or.inl hc)

end

/-! ## A tree on a card -/

section
variable {env : Env} {v : VolumeInfo} {cs : List UInt32} {l₀ : LfnLocals} (hv : v.WellFormed)
    (ha : ∀ k, env.fails k = false)
  (hch : Chain env v cs) (hz : l₀.Zeroed) (hs : ∀ k, env.stack k = l₀)
include hv ha hch hz hs

/-- A call on a card without failures. -/
theorem call_answers {q : Nat} {iter : DirIter} {w : World} (hw : w.vol = v) (ho : OnCluster cs q iter)
    (info : FileInfo) :
    ∃ res iter' info' w', w'.vol = v ∧
      Settles (fun fuel => fatReadNextDirEntry env fuel iter info w) (.ok ((res, iter', info'), w')) ∧
      ((res = .success ∧ ∃ q', OnCluster cs q' iter' ∧ listing l₀ (held iter.lfnChecksum l₀) (ahead env v cs q iter) =
          info'.item :: listing l₀ (held iter'.lfnChecksum l₀) (ahead env v cs q' iter') ∧
          endOf (ahead env v cs q iter) = endOf (ahead env v cs q' iter')) ∨
        (res ≠ .success ∧ listing l₀ (held iter.lfnChecksum l₀) (ahead env v cs q iter) = [] ∧
          res = endOf (ahead env v cs q iter))) := by
  obtain ⟨res, -, iter', info', w', -, N, hN⟩ := call_settles hv ha hch hw ho info
  obtain ⟨hw', q', ho', hc⟩ := call_lists hv hch hz hs hw ho (hN N (Nat.le_refl N))
  refine ⟨res, iter', info', w', hw', ⟨N, hN⟩, ?_⟩
  rcases hc with ⟨hres, hcons, -, hend⟩ | ⟨-, t, -, hfails, -⟩ | ⟨hne, -, hnil, he⟩
  · exact Or.inl ⟨hres, q', ho', hcons, hend⟩
  · obtain ⟨k, -, hk⟩ := hfails.fails
    exact absurd hk (by rw [ha]; decide)
  · exact Or.inr ⟨hne, hnil, he⟩

theorem reports_ahead (items : List DirItem) : ∀ {q : Nat} {iter : DirIter} {info : FileInfo} {w : World}, w.vol = v →
    OnCluster cs q iter → listing l₀ (held iter.lfnChecksum l₀) (ahead env v cs q iter) = items →
    ReportsTo env (fun res => res = endOf (ahead env v cs q iter)) iter info w items := by
  induction items with
  | nil =>
    intro q iter info w hw ho hl
    obtain ⟨res, iter', info', w', -, hset, hc⟩ := call_answers hv ha hch hz hs hw ho info
    rcases hc with ⟨-, q', -, hcons, -⟩ | ⟨hne, -, he⟩
    · rw [hl] at hcons
      cases hcons
    · exact .stop hset hne he
  | cons item items ih =>
    intro q iter info w hw ho hl
    obtain ⟨res, iter', info', w', hw', hset, hc⟩ := call_answers hv ha hch hz hs hw ho info
    rcases hc with ⟨rfl, q', ho', hcons, hend⟩ | ⟨-, hnil, -⟩
    · rw [hl] at hcons
      obtain ⟨rfl, hrest⟩ := List.cons.inj hcons
      rw [hend]
      exact .more hset (ih hw' ho' hrest.symm)
    · rw [hl] at hnil
      cases hnil

/-- The items of a directory on a good chain, and what its iterator ends on. -/
theorem reports_directory {c : UInt32} (hc : cs[0]? = some c) {items : List DirItem} {last : FatError}
    (hitems : listing l₀ (held 0 l₀) ((records env v cs).map entryBytes) = items)
    (hlast : endOf ((records env v cs).map entryBytes) = last) (w : World) (info : FileInfo) (hw : w.vol = v) :
    ReportsTo env (fun res => res = last) (freshIter c) info w items := by
  have hl : listing l₀ (held (freshIter c).lfnChecksum l₀) (ahead env v cs 0 (freshIter c)) = items := by
    rw [ahead_fresh hv]
    exact hitems
  have h : ReportsTo env _ (freshIter c) info w items := reports_ahead hv ha hch hz hs items hw (freshIter_on hc) hl
  rw [ahead_fresh hv, hlast] at h
  exact h

end

/-- The file `/A` and the directories `/S` and `/S/T`, a file `B` in `/S`. -/
def nestedBytes : List (UInt32 × Nat × UInt8) := [
  (0, 446, 0x80), (0, 450, 0x0C), (0, 454, 1), (0, 458, 100), (0, 510, 0x55), (0, 511, 0xAA),
  (1, 0x0C, 2), (1, 0x0D, 1), (1, 0x0E, 1), (1, 0x10, 1), (1, 36, 1), (1, 44, 2),
  (2, 8, 0xF8), (2, 9, 0xFF), (2, 10, 0xFF), (2, 11, 0x0F), (2, 12, 0xF8), (2, 13, 0xFF), (2, 14, 0xFF), (2, 15, 0x0F),
  (2, 16, 0xF8), (2, 17, 0xFF), (2, 18, 0xFF), (2, 19, 0x0F),
  (3, 0, 0x53), (3, 1, 0x20), (3, 8, 0x20), (3, 11, 0x10), (3, 26, 3), (3, 32, 0x41), (3, 33, 0x20), (3, 40, 0x20),
  (4, 0, 0x2E), (4, 1, 0x20), (4, 8, 0x20), (4, 11, 0x10), (4, 26, 3),
  (4, 32, 0x2E), (4, 33, 0x2E), (4, 34, 0x20), (4, 40, 0x20), (4, 43, 0x10),
  (4, 64, 0x54), (4, 65, 0x20), (4, 72, 0x20), (4, 75, 0x10), (4, 90, 4), (4, 96, 0x42), (4, 97, 0x20), (4, 104, 0x20),
  (5, 0, 0x2E), (5, 1, 0x20), (5, 8, 0x20), (5, 11, 0x10), (5, 26, 4),
  (5, 32, 0x2E), (5, 33, 0x2E), (5, 34, 0x20), (5, 40, 0x20), (5, 43, 0x10), (5, 58, 3)]

def nestedCard : Env := card nestedBytes

/-- The `..` of `/S` holds 0. -/
def nestedTree (c : UInt32) : List DirItem :=
  if c = 2 then [⟨[0x53], 3, 0, 0x10, true⟩, ⟨[0x41], 0, 0, 0, false⟩]
  else if c = 3 then [⟨dot, 3, 0, 0x10, true⟩, ⟨dotdot, 0, 0, 0x10, true⟩, ⟨[0x54], 4, 0, 0x10, true⟩,
      ⟨[0x42], 0, 0, 0, false⟩]
  else if c = 4 then [⟨dot, 4, 0, 0x10, true⟩, ⟨dotdot, 3, 0, 0x10, true⟩]
  else []

def nestedWorld : World := after (fat32Init nestedCard World.boot)

theorem nestedWorld_vol : nestedWorld.vol = sampleVolume := by decide +kernel

theorem nested_chain {c : UInt32} (hc : c = 2 ∨ c = 3 ∨ c = 4) : Chain nestedCard sampleVolume [c] := by
  have heoc : fatEntry nestedCard sampleVolume 2 = 0x0FFFFFF8 ∧ fatEntry nestedCard sampleVolume 3 = 0x0FFFFFF8 ∧
      fatEntry nestedCard sampleVolume 4 = 0x0FFFFFF8 := by decide +kernel
  rcases hc with rfl | rfl | rfl
  · exact ⟨⟨by decide, by decide⟩, by rw [heoc.1]; exact ⟨by decide, by decide⟩⟩
  · exact ⟨⟨by decide, by decide⟩, by rw [heoc.2.1]; exact ⟨by decide, by decide⟩⟩
  · exact ⟨⟨by decide, by decide⟩, by rw [heoc.2.2]; exact ⟨by decide, by decide⟩⟩

/-- What lies in sector 0 ends with its first entry. -/
theorem nested_zero (w : World) (info : FileInfo) (hw : w.vol = sampleVolume) :
    ReportsTo nestedCard (fun res => res = .noMoreEntries) (freshIter 0) info w [] := by
  have hi : w.vol.isInitialized = true := by rw [hw]; rfl
  have hspc : 0 < w.vol.sectorsPerCluster.toNat := by rw [hw]; decide
  have h1 := dirTurn_sector (w := { w with frames := w.frames + 1 }) (s := 0)
      (nestedCard.stack w.frames) info nestedCard
    (Or.inl (freshIter_fresh 0).valid) (freshIter_fresh 0).cluster rfl hspc
  obtain ⟨e, iter1, w1, he, -, -, -, ht⟩ : Takes nestedCard (freshIter 0) _ info _ 0 0 0 := h1
  have hend : dirEntry nestedCard w.vol 0 0 0 0 = 0 := by rw [hw]; decide +kernel
  rw [entryTurn_ends he iter1 _ info hend] at ht
  exact .stop (Settles.of_succ ⟨0, fun fuel _ => fatReadNextDirEntry_done hi ht fuel⟩) (by decide) rfl

theorem nested_treeTo : TreeTo nestedCard sampleVolume nestedTree fun _ res => res = .noMoreEntries := by
  have hz : (⟨fun _ => 0, 0⟩ : LfnLocals).Zeroed := ⟨rfl, fun _ _ => rfl⟩
  have hclosed : ∀ c, c = 0 ∨ c = 2 ∨ c = 3 ∨ c = 4 → ∀ item ∈ nestedTree c, item.isDirectory = true →
      item.firstCluster = 0 ∨ item.firstCluster = 2 ∨ item.firstCluster = 3 ∨ item.firstCluster = 4 := by
    intro c hc
    rcases hc with rfl | rfl | rfl | rfl <;> decide +kernel
  have hin : ∀ c, InTree nestedTree 2 c → c = 0 ∨ c = 2 ∨ c = 3 ∨ c = 4 := by
    intro c hc
    induction hc with
    | root => exact Or.inr (Or.inl rfl)
    | sub _ hitem hd ih => exact hclosed _ ih _ hitem hd
  have hdir : ∀ c, c = 2 ∨ c = 3 ∨ c = 4 → listing ⟨fun _ => 0, 0⟩ (held 0 ⟨fun _ => 0, 0⟩)
      ((records nestedCard sampleVolume [c]).map entryBytes) = nestedTree c ∧
      endOf ((records nestedCard sampleVolume [c]).map entryBytes) = .noMoreEntries := by
    intro c hc
    rcases hc with rfl | rfl | rfl <;> decide +kernel
  intro c hc w info hw
  rcases hin c hc with rfl | hmem
  · exact nested_zero w info hw
  · obtain ⟨hitems, hlast⟩ := hdir c hmem
    exact reports_directory sampleVolume_wellFormed (fun _ => rfl) (nested_chain hmem) hz
      (fun _ => rfl) rfl hitems hlast w info hw

theorem ReportsTo.reports {env : Env} {E : FatError → Prop} {iter : DirIter} {info : FileInfo} {w : World}
    {items : List DirItem} (h : ReportsTo env E iter info w items) : Reports env iter info w items := by
  induction h with
  | stop hs hr _ => exact .stop hs hr
  | more hs _ ih => exact .more hs ih

theorem nested_isTree : IsTree nestedCard sampleVolume nestedTree := fun c hc w info hw =>
    (nested_treeTo c hc w info hw).reports

/-- `/S/T/../B`, found and opened. -/
theorem path_resolution_nested : ∃ file w2, ∃ i : Slot,
    Settles (fun fuel => fat32Open nestedCard fuel [0x2F, 0x53, 0x2F, 0x54, 0x2F, 0x2E, 0x2E, 0x2F, 0x42] 0 nestedWorld)
      (.ok (UInt32.ofNat i.val, w2)) ∧
    file.item = ⟨[0x42], 0, 0, 0, false⟩ ∧ w2.handles i = openHandle file 0 := by
  let path : List UInt8 := [0x53, 0x2F, 0x54, 0x2F, 0x2E, 0x2E, 0x2F, 0x42]
  have hi : nestedWorld.vol.isInitialized = true := by rw [nestedWorld_vol]; rfl
  have ht : IsTree nestedCard nestedWorld.vol nestedTree := by rw [nestedWorld_vol]; exact nested_isTree
  have hfree : (nestedWorld.handles 0).isFree = true := by decide +kernel
  have hsplit : path.splitOn 0x2F = [[0x53], [0x54], dotdot, [0x42]] := by decide +kernel
  have hl : ∀ name ∈ path.splitOn 0x2F, name.length ≤ 255 := by
    rw [hsplit]
    decide
  have h0 : ∀ c ∈ path, c ≠ 0 := by decide +kernel
  have hfound : lookup nestedTree nestedWorld.vol.rootDirCluster (path.splitOn 0x2F) = some ⟨[0x42], 0, 0, 0, false⟩ :=
      by
    rw [hsplit, nestedWorld_vol]
    decide +kernel
  obtain ⟨res, file, w1, id, w2, -, hopen, h⟩ := path_resolution hi ht h0 hl 0
  rw [hfound] at h
  obtain ⟨-, hitem, ⟨hall, -⟩ | ⟨i, -, rfl, -, hhan⟩⟩ := h
  · rw [hall 0] at hfree
    cases hfree
  · exact ⟨file, w2, i, hopen, hitem, by rw [hhan]; exact if_pos rfl⟩

theorem nested_parents : HasParents nestedTree 2 := by
  have hstep : ∀ c, c = 2 ∨ c = 3 ∨ c = 4 → ∀ item ∈ nestedTree c, item.isDirectory = true → item.name ≠ dot →
      item.name ≠ dotdot → (item.firstCluster = 2 ∨ item.firstCluster = 3 ∨ item.firstCluster = 4) ∧
      (directoryIn (nestedTree item.firstCluster) dotdot).map DirItem.firstCluster = some (if c = 2 then 0 else c) := by
    intro c hc
    rcases hc with rfl | rfl | rfl <;> decide +kernel
  have hin : ∀ c, Directory nestedTree 2 c → c = 2 ∨ c = 3 ∨ c = 4 := by
    intro c hc
    induction hc with
    | root => exact Or.inl rfl
    | sub _ hitem hd h1 h2 ih => exact (hstep _ ih _ hitem hd h1 h2).1
  intro c hc item hitem hd h1 h2
  exact Option.map_eq_some_iff.mp (hstep c (hin c hc) item hitem hd h1 h2).2

/-- `/S/T/../B` and `/S/B`. -/
theorem parent_resolves_nested : SameResult nestedCard nestedWorld
    [0x2F, 0x53, 0x2F, 0x54, 0x2F, 0x2E, 0x2E, 0x2F, 0x42]
    [0x2F, 0x53, 0x2F, 0x42] := by
  have hi : nestedWorld.vol.isInitialized = true := by rw [nestedWorld_vol]; rfl
  have hroot : nestedWorld.vol.rootDirCluster = 2 := by rw [nestedWorld_vol]; rfl
  have ht : TreeTo nestedCard nestedWorld.vol nestedTree fun _ res => res = .noMoreEntries := by
    rw [nestedWorld_vol]
    exact nested_treeTo
  have hS : (⟨[0x53], 3, 0, 0x10, true⟩ : DirItem) ∈ nestedTree 2 := by decide +kernel
  have hT : (⟨[0x54], 4, 0, 0x10, true⟩ : DirItem) ∈ nestedTree 3 := by decide +kernel
  have hds : enter nestedTree nestedWorld.vol.rootDirCluster [[0x53]] = some 3 := by rw [hroot]; decide +kernel
  have hdir : Directory nestedTree nestedWorld.vol.rootDirCluster 3 := by
    rw [hroot]
    exact .sub .root hS rfl (by decide) (by decide)
  have hp : HasParents nestedTree nestedWorld.vol.rootDirCluster := by
    rw [hroot]
    exact nested_parents
  have hpath : components [0x53, 0x2F, 0x54, 0x2F, 0x2E, 0x2E, 0x2F, 0x42] = [[0x53]] ++ [0x54] :: dotdot :: [[0x42]] :=
      by decide +kernel
  have hpath' : components [0x53, 0x2F, 0x42] = [[0x53]] ++ [[0x42]] := by decide +kernel
  have h := parent_resolves_iff hi ht hp hds hdir hT rfl (by decide) (by decide) (by decide) (by decide) (by simp) (by simp) hpath hpath'
  refine h.mpr (Or.inl ?_)
  rw [hroot]
  decide

/-- `/S/../A` is not found. -/
theorem parent_of_root_lost : HasParents nestedTree 2 ∧
    ¬SameResult nestedCard nestedWorld [0x2F, 0x53, 0x2F, 0x2E, 0x2E, 0x2F, 0x41] [0x2F, 0x41] := by
  have hroot : nestedWorld.vol.rootDirCluster = 2 := by rw [nestedWorld_vol]; rfl
  have ht : TreeTo nestedCard nestedWorld.vol nestedTree fun _ res => res = .noMoreEntries := by
    rw [nestedWorld_vol]
    exact nested_treeTo
  refine ⟨nested_parents, fun h => ?_⟩
  have heq := (sameResult_iff (by rw [nestedWorld_vol]; rfl) ht (by simp) (by simp)).mp h
  rw [hroot] at heq
  have hne : resolve nestedTree (fun _ => .noMoreEntries) 2 (components [0x53, 0x2F, 0x2E, 0x2E, 0x2F, 0x41]) ≠
      resolve nestedTree (fun _ => .noMoreEntries) 2 (components [0x41]) := by decide +kernel
  exact hne heq

end OpenGpos.Fat
