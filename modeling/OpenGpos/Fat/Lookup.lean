/-
  OpenGpos.Fat.Lookup — what path resolution is for. A tree gives each directory as the
  list of items that its iterator reports (`IsTree`); `lookup` walks it component by
  component. `scanDir_to` is the search of one directory, `walkPath_to` the walk, both for any
  answers that iterators may end on; `path_resolution` says that `get_file` and `fat32_open`
  answer as `lookup` does.
-/
import Mathlib
import OpenGpos.Fat.Handles
import OpenGpos.Lib.Fuel

namespace OpenGpos.Fat

open OpenGpos.Lib.Fuel OpenGpos.Libc.Strings

/-- What a directory says of a file or a directory in it. -/
structure DirItem where
  name : List UInt8
  firstCluster : UInt32
  fileSize : UInt32
  attributes : UInt8
  isDirectory : Bool
  deriving DecidableEq

def FileInfo.item (info : FileInfo) : DirItem :=
  ⟨cstring info.filename 0 256, info.firstCluster, info.fileSize, info.attributes, info.isDirectory⟩

/-- The iterator reports these items, one a call, and then no more. -/
inductive Reports (env : Env) : DirIter → FileInfo → World → List DirItem → Prop
  | stop {iter iter' : DirIter} {info info' : FileInfo} {w w' : World} {res : FatError} :
      Settles (fun fuel => fatReadNextDirEntry env fuel iter info w) (.ok ((res, iter', info'), w')) → res ≠ .success →
      Reports env iter info w []
  | more {iter iter' : DirIter} {info info' : FileInfo} {w w' : World} {items : List DirItem} :
      Settles (fun fuel => fatReadNextDirEntry env fuel iter info w) (.ok ((.success, iter', info'), w')) →
      Reports env iter' info' w' items → Reports env iter info w (info'.item :: items)

/-- The directories below `root`, where `dir c` are the items of the one on cluster `c`. -/
inductive InTree (dir : UInt32 → List DirItem) (root : UInt32) : UInt32 → Prop
  | root : InTree dir root root
  | sub {c : UInt32} {item : DirItem} : InTree dir root c → item ∈ dir c → item.isDirectory = true →
      InTree dir root item.firstCluster

/-- `dir` is what the iterator reports of the directories of the volume. -/
def IsTree (env : Env) (v : VolumeInfo) (dir : UInt32 → List DirItem) : Prop :=
  ∀ c, InTree dir v.rootDirCluster c → ∀ (w : World) (info : FileInfo), w.vol = v →
      Reports env (freshIter c) info w (dir c)

/-- The first item of that name, if it is a file. -/
def fileIn (items : List DirItem) (name : List UInt8) : Option DirItem :=
  match items.find? fun item => item.name = name with
  | some item => if item.isDirectory then none else some item
  | none => none

/-- The first directory of that name. -/
def directoryIn (items : List DirItem) (name : List UInt8) : Option DirItem :=
  items.find? fun item => item.isDirectory ∧ item.name = name

/-- The same with what it answers then. -/
inductive ReportsTo (env : Env) (E : FatError → Prop) : DirIter → FileInfo → World → List DirItem → Prop
  | stop {iter iter' : DirIter} {info info' : FileInfo} {w w' : World} {res : FatError} :
      Settles (fun fuel => fatReadNextDirEntry env fuel iter info w) (.ok ((res, iter', info'), w')) → res ≠ .success →
        E res →
      ReportsTo env E iter info w []
  | more {iter iter' : DirIter} {info info' : FileInfo} {w w' : World} {items : List DirItem} :
      Settles (fun fuel => fatReadNextDirEntry env fuel iter info w) (.ok ((.success, iter', info'), w')) →
      ReportsTo env E iter' info' w' items → ReportsTo env E iter info w (info'.item :: items)

theorem Reports.to {env : Env} {iter : DirIter} {info : FileInfo} {w : World} {items : List DirItem}
    (h : Reports env iter info w items) : ReportsTo env (fun res => res ≠ .success) iter info w items := by
  induction h with
  | stop hs hr => exact .stop hs hr hr
  | more hs _ ih => exact .more hs ih

/-- `dir` with what the iterators may answer then. -/
def TreeTo (env : Env) (v : VolumeInfo) (dir : UInt32 → List DirItem) (E : UInt32 → FatError → Prop) : Prop :=
  ∀ c, InTree dir v.rootDirCluster c → ∀ (w : World) (info : FileInfo), w.vol = v →
      ReportsTo env (E c) (freshIter c) info w (dir c)

/-- The file at a path: empty components are skipped, every other one selects a directory,
    and the last one the file. -/
def lookup (dir : UInt32 → List DirItem) : UInt32 → List (List UInt8) → Option DirItem
  | _, [] => none
  | c, [last] => fileIn (dir c) last
  | c, name :: next :: rest =>
    if name = [] then lookup dir c (next :: rest)
    else
      match directoryIn (dir c) name with
      | some item => lookup dir item.firstCluster (next :: rest)
      | none => none

/-! ## One directory -/

/-- What the search for `name` comes to, where the iterator ends on an answer in `E`. -/
def ScanTo (E : FatError → Prop) (name : List UInt8) (final : Bool) (items : List DirItem) (r : Scan) : Prop :=
  match final with
  | true =>
    match items.find? fun item => item.name = name with
    | some item => if item.isDirectory then r = .ret .fileNotFound else ∃ info, r = .found info ∧ info.item = item
    | none => ∃ res, res ≠ .success ∧ E res ∧ r = .ret (refusal res)
  | false =>
    match directoryIn items name with
    | some item => ∃ info, r = .enter (freshIter item.firstCluster) info
    | none => ∃ res, res ≠ .success ∧ E res ∧ r = .ret (refusal res)

section
variable {E : FatError → Prop} {name : List UInt8} {item : DirItem} {items : List DirItem}

theorem directoryIn_cons_ne (hn : ¬ (item.isDirectory = true ∧ item.name = name)) :
    directoryIn (item :: items) name = directoryIn items name := by
  rw [directoryIn, List.find?_cons_of_neg (by simpa using hn)]; rfl

theorem directoryIn_cons (hd : item.isDirectory = true) (hn : item.name = name) :
    directoryIn (item :: items) name = some item := by
  simp [directoryIn, hd, hn]

/-- An item that is passed over. -/
theorem ScanTo.cons {final : Bool} {r : Scan} (hn : item.name ≠ name ∨ item.isDirectory = false ∧ final = false)
    (h : ScanTo E name final items r) : ScanTo E name final (item :: items) r := by
  cases final with
  | true =>
    have hne : item.name ≠ name := hn.resolve_right fun h => by cases h.2
    rw [ScanTo, List.find?_cons_of_neg (by simpa using hne)]
    exact h
  | false =>
    have hne : ¬ (item.isDirectory = true ∧ item.name = name) := by
      intro h
      rcases hn with hn | hn
      · exact hn h.2
      · rw [hn.1] at h
        cases h.1
    rw [ScanTo, directoryIn_cons_ne hne]
    exact h

end

section
variable {env : Env} {v : VolumeInfo}

theorem read_vol {fuel : Nat} {iter : DirIter} {info : FileInfo} {w : World}
    {r : (FatError × DirIter × FileInfo) × World}
    (hw : w.vol = v) (h : fatReadNextDirEntry env fuel iter info w = .ok r) : r.2.vol = v := by
  have hq : Quiet fun s => s.vol = v := ⟨⟨fun _ _ h => h⟩, fun _ h => h⟩
  exact fatReadNextDirEntry_keeps env hq fuel iter info w hw _ _ h

/-- The search of a directory, by induction on what its iterator has still to report. -/
theorem scanDir_to (hi : v.isInitialized = true) {name : List UInt8} (h0 : ∀ c ∈ name, c ≠ 0) (hl : name.length ≤ 255)
    (final : Bool) {E : FatError → Prop} {iter : DirIter} {info : FileInfo} {w : World} {items : List DirItem}
    (h : ReportsTo env E iter info w items) (hw : w.vol = v) : ∃ r w', w'.vol = v ∧ ScanTo E name final items r ∧
      Settles (fun fuel => scanDir env fuel name final iter info w) (.ok (r, w')) := by
  induction h with
  | @stop iter iter' info info' w w' res hread hr hE =>
    obtain ⟨N, hN⟩ := hread
    refine ⟨.ret (refusal res), w', read_vol hw (hN N (Nat.le_refl N)), ?_, Settles.of_succ ⟨N, fun n hn => ?_⟩⟩
    · cases final <;> exact ⟨res, hr, hE, rfl⟩
    · exact scanDir_refused (hN n hn) hr
  | @more iter iter' info info' w w' items hread _ ih =>
    obtain ⟨N, hN⟩ := hread
    have hvol : w'.vol = v := read_vol hw (hN N (Nat.le_refl N))
    have hcmp : strcmp info'.filename name 0 = 0 ↔ info'.item.name = name :=
      strcmp_eq_zero h0 (by omega)
    -- an answer that this item decides
    have now : ∀ {r}, ScanTo E name final (info'.item :: items) r →
        (∀ n, N ≤ n → scanDir env (n + 1) name final iter info w = .ok (r, w')) → ∃ r w', w'.vol = v ∧
          ScanTo E name final (info'.item :: items) r ∧
          Settles (fun fuel => scanDir env fuel name final iter info w) (.ok (r, w')) :=
      fun hr e => ⟨_, w', hvol, hr, Settles.of_succ ⟨N, e⟩⟩
    by_cases hother : info'.item.name ≠ name ∨ info'.item.isDirectory = false ∧ final = false
    · obtain ⟨r, w2, hvol2, hr, M, hM⟩ := ih hvol
      refine ⟨r, w2, hvol2, hr.cons hother, Settles.of_succ ⟨max N M, fun n hn => ?_⟩⟩
      show scanDir env (n + 1) name final iter info w = _
      rw [scanDir_other (hN n (by omega)) (hother.imp_left hcmp.not.mpr)]
      exact hM n (by omega)
    simp only [not_or, not_not] at hother
    obtain ⟨hname, hdf⟩ := hother
    have hc := hcmp.mpr hname
    cases hd : info'.isDirectory with
    | true =>
      have hd' : info'.item.isDirectory = true := hd
      cases final with
      | true =>
        refine now (r := .ret .fileNotFound) ?_ fun n hn => scanDir_isDirectory (hN n hn) hc hd rfl
        rw [ScanTo, List.find?_cons_of_pos (by simpa using hname)]
        exact (if_pos hd').mpr rfl
      | false =>
        refine now (r := .enter (freshIter info'.firstCluster) info') ?_
          fun n hn => scanDir_enter (hN n hn) (by rw [hvol]; exact hi) hc hd rfl
        rw [ScanTo, directoryIn_cons hd' hname]
        exact ⟨info', rfl⟩
    | false =>
      have hd' : info'.item.isDirectory = false := hd
      cases final with
      | true =>
        refine now (r := .found info') ?_ fun n hn => scanDir_found (hN n hn) hc hd rfl
        rw [ScanTo, List.find?_cons_of_pos (by simpa using hname)]
        exact (if_neg (by rw [hd']; decide)).mpr ⟨info', rfl, rfl⟩
      | false => exact absurd ⟨hd', rfl⟩ hdf

/-! ## The walk -/

/-- A path, read up to its first slash and from there on. -/
theorem splitOn_behind {path : List UInt8} (h0 : ∀ c ∈ path, c ≠ 0) :
    path.splitOn 0x2F = path.takeWhile inName :: match behind path with
      | some rest => rest.splitOn 0x2F
      | none => [] := by
  have hall : ∀ c ∈ path.takeWhile inName, (c == 0x2F) = false := by
    intro c hc
    have hin := List.mem_takeWhile_imp hc
    simp only [inName, Bool.and_eq_true, bne_iff_ne] at hin
    simpa using hin.1
  have happ : path.takeWhile inName ++ path.dropWhile inName = path := List.takeWhile_append_dropWhile
  rw [behind]
  cases hd : path.dropWhile inName with
  | nil =>
    rw [hd, List.append_nil] at happ
    rw [← happ, List.splitOn_eq_splitOnP, List.splitOnP_eq_singleton hall, happ, happ]
  | cons d rest =>
    rw [hd] at happ
    have hd0 : d = 0x2F := by
      have hmem : d ∈ path := by rw [← happ]; simp
      have hnot := List.head_dropWhile_not inName (l := path) (by rw [hd]; simp)
      simp only [hd, List.head_cons, inName, Bool.and_eq_false_iff, bne_eq_false_iff_eq] at hnot
      exact hnot.resolve_right (h0 d hmem)
    subst hd0
    have hsplit := List.splitOnP_append_cons_of_forall_mem hall 0x2F (by decide) rest
    rw [happ] at hsplit
    simpa [List.splitOn_eq_splitOnP] using hsplit

/-- How a walk ends in the tree, where the iterators end on answers in `E`. -/
def PathTo (dir : UInt32 → List DirItem) (E : UInt32 → FatError → Prop) :
    UInt32 → List (List UInt8) → FatError → FileInfo → Prop
  | _, [], _, _ => False
  | c, [last], res, file =>
    match (dir c).find? fun item => item.name = last with
    | some item => if item.isDirectory then res = .fileNotFound else res = .success ∧ file.item = item
    | none => ∃ r, r ≠ .success ∧ E c r ∧ res = refusal r
  | c, name :: next :: rest, res, file =>
    if name = [] then PathTo dir E c (next :: rest) res file
    else
      match directoryIn (dir c) name with
      | some item => PathTo dir E item.firstCluster (next :: rest) res file
      | none => ∃ r, r ≠ .success ∧ E c r ∧ res = refusal r

/-- The components of a path, as the code cuts them. -/
def components (path : List UInt8) : List (List UInt8) := (path.splitOn 0x2F).map fun name => name.take 255

/-- The walk along a path in the tree, by induction on what is left of the path. -/
theorem walkPath_to {dir : UInt32 → List DirItem} {E : UInt32 → FatError → Prop} (hi : v.isInitialized = true)
    (ht : TreeTo env v dir E) (file : FileInfo) (n : Nat) : ∀ {path : List UInt8} {c : UInt32} {w : World},
    path.length < n →
    (∀ x ∈ path, x ≠ 0) → w.vol = v → InTree dir v.rootDirCluster c → ∀ info : FileInfo,
    ∃ res file' w', w'.vol = v ∧ PathTo dir E c (components path) res file' ∧
      Settles (fun fuel => walkPath env fuel path (freshIter c) info file w) (.ok ((res, file'), w')) := by
  induction n with
  | zero => intro path c w hn; omega
  | succ n ih =>
    intro path c w hn h0 hw hc info
    have hsplit := splitOn_behind h0
    have hlen : (component path).length ≤ 255 := List.length_take_le _ _
    have hname : ∀ x ∈ component path, x ≠ 0 := fun x hx =>
      h0 x ((List.takeWhile_prefix _).subset (List.mem_of_mem_take hx))
    have hscan (final : Bool) := scanDir_to hi hname hlen final (ht c hc w info hw) hw
    unfold components
    rw [hsplit]
    cases hb : behind path with
    | none =>
      obtain ⟨r, w1, hvol, hr, N, hN⟩ := hscan true
      show ∃ (res : FatError) (file' : FileInfo) (w' : World), w'.vol = v ∧ PathTo dir E c [component path] res file' ∧
        _
      rw [ScanTo] at hr
      simp only [PathTo]
      cases hf : (dir c).find? fun item => item.name = component path with
      | none =>
        rw [hf] at hr
        obtain ⟨res, hne, hE, rfl⟩ := hr
        refine ⟨refusal res, file, w1, hvol, ⟨res, hne, hE, rfl⟩, Settles.of_succ ⟨N, fun k hk => ?_⟩⟩
        simp only [walkPath, hb, bind_apply, hN k hk, ok_bind, pure_apply]
      | some item =>
        rw [hf] at hr
        dsimp only at hr ⊢
        by_cases hd : item.isDirectory = true
        · rw [if_pos hd] at hr
          rw [hr] at hN
          refine ⟨.fileNotFound, file, w1, hvol, by rw [if_pos hd], Settles.of_succ ⟨N, fun k hk => ?_⟩⟩
          simp only [walkPath, hb, bind_apply, hN k hk, ok_bind, pure_apply]
        · rw [if_neg hd] at hr
          obtain ⟨info1, rfl, hitem⟩ := hr
          refine ⟨.success, info1, w1, hvol, by rw [if_neg hd]; exact ⟨rfl, hitem⟩, Settles.of_succ ⟨N, fun k hk => ?_⟩⟩
          simp only [walkPath, hb, bind_apply, hN k hk, ok_bind, pure_apply]
    | some rest =>
      obtain ⟨hrest, hmem⟩ := behind_mem hb
      obtain ⟨next, more, hmore⟩ := List.exists_cons_of_ne_nil (List.splitOnP_ne_nil (· == (0x2F : UInt8)) rest)
      rw [← List.splitOn_eq_splitOnP] at hmore
      have hgo {c' : UInt32} {w' : World} := @ih rest c' w' (by omega) fun x hx => h0 x (hmem x hx)
      unfold components at hgo
      dsimp only
      rw [hmore, List.map_cons] at hgo
      rw [hmore, List.map_cons, List.map_cons]
      show ∃ (res : FatError) (file' : FileInfo) (w' : World), w'.vol = v ∧
        PathTo dir E c (component path :: _ :: _) res file' ∧ _
      simp only [PathTo]
      by_cases hnil : component path = []
      · obtain ⟨res, file', w', hvol, ha, hs⟩ := hgo hw hc info
        refine ⟨res, file', w', hvol, by rw [if_pos hnil]; exact ha, Settles.of_succ ?_⟩
        simp only [walkPath, hb, if_pos hnil]
        exact hs
      simp only [if_neg hnil]
      obtain ⟨r, w1, hvol, hr, N, hN⟩ := hscan false
      rw [ScanTo] at hr
      cases hd : directoryIn (dir c) (component path) with
      | none =>
        rw [hd] at hr
        obtain ⟨res, hne, hE, rfl⟩ := hr
        refine ⟨refusal res, file, w1, hvol, ⟨res, hne, hE, rfl⟩, Settles.of_succ ⟨N, fun k hk => ?_⟩⟩
        simp only [walkPath, hb, if_neg hnil, bind_apply, hN k hk, ok_bind, pure_apply]
      | some item =>
        rw [hd] at hr
        obtain ⟨info1, rfl⟩ := hr
        have hitem : item ∈ dir c := List.mem_of_find?_eq_some hd
        have hsel := List.find?_some hd
        simp only [decide_eq_true_eq] at hsel
        obtain ⟨res, file', w', hvol', ha, M, hM⟩ := hgo hvol (.sub hc hitem hsel.1) info1
        refine ⟨res, file', w', hvol', ha, Settles.of_succ ⟨max N M, fun k hk => ?_⟩⟩
        simp only [walkPath, hb, if_neg hnil, bind_apply, hN k (by omega), ok_bind]
        exact hM k (by omega)

end

/-- The answer that `lookup` asks for. -/
def PathAnswer (found : Option DirItem) (res : FatError) (file : FileInfo) : Prop :=
  match found with
  | some item => res = .success ∧ file.item = item
  | none => res ≠ .success

theorem PathTo.answer {dir : UInt32 → List DirItem} {E : UInt32 → FatError → Prop} {res : FatError} {file : FileInfo}
    (names : List (List UInt8)) : ∀ {c : UInt32}, PathTo dir E c names res file →
    PathAnswer (lookup dir c names) res file := by
  induction names with
  | nil => exact fun h => h.elim
  | cons name names ih =>
    intro c h
    cases names with
    | nil =>
      unfold PathTo at h
      unfold lookup fileIn PathAnswer
      cases hf : (dir c).find? fun item => item.name = name with
      | none =>
        rw [hf] at h
        obtain ⟨r, hne, -, rfl⟩ := h
        exact refusal_ne_success hne
      | some item =>
        rw [hf] at h
        by_cases hd : item.isDirectory = true
        · simp only [if_pos hd] at h ⊢
          rw [h]
          decide
        · simp only [if_neg hd] at h ⊢
          exact h
    | cons next rest =>
      rw [PathTo] at h
      rw [lookup]
      by_cases hnil : name = []
      · rw [if_pos hnil] at h ⊢
        exact ih h
      · rw [if_neg hnil] at h ⊢
        cases hd : directoryIn (dir c) name with
        | none =>
          rw [hd] at h
          obtain ⟨r, hne, -, rfl⟩ := h
          exact refusal_ne_success hne
        | some item =>
          rw [hd] at h
          exact ih h

/-- The walk is `lookup` in the tree. -/
theorem walkPath_answers {env : Env} {v : VolumeInfo} {dir : UInt32 → List DirItem} (hi : v.isInitialized = true)
    (ht : IsTree env v dir) (file : FileInfo) {path : List UInt8} {c : UInt32} {w : World} (h0 : ∀ x ∈ path, x ≠ 0)
    (hl : ∀ name ∈ path.splitOn 0x2F, name.length ≤ 255) (hw : w.vol = v) (hc : InTree dir v.rootDirCluster c)
    (info : FileInfo) :
    ∃ res file' w', w'.vol = v ∧ PathAnswer (lookup dir c (path.splitOn 0x2F)) res file' ∧
      Settles (fun fuel => walkPath env fuel path (freshIter c) info file w) (.ok ((res, file'), w')) := by
  have ht' : TreeTo env v dir fun _ res => res ≠ .success := fun c hc w info hw => (ht c hc w info hw).to
  obtain ⟨res, file', w', hvol, ha, hs⟩ := walkPath_to hi ht' file _ (Nat.lt_succ_self path.length) h0 hw hc info
  have hcut : components path = path.splitOn 0x2F := by
    unfold components
    refine (List.map_congr_left fun name hn => ?_).trans (List.map_id _)
    exact List.take_of_length_le (hl name hn)
  rw [hcut] at ha
  exact ⟨res, file', w', hvol, ha.answer, hs⟩

/-! ## fat32_open -/

/-- Whether `fat32_open` finds a slot for the file. -/
theorem openResult_success (mode : UInt8) (file : FileInfo) (w : World) :
    ((∀ i, (w.handles i).isFree = false) ∧ openResult mode ((.success, file), w) = (noFile, w)) ∨
    ∃ i, (w.handles i).isFree = true ∧ UInt32.ofNat i.val ≠ noFile ∧
      openResult mode ((.success, file), w) =
        (UInt32.ofNat i.val, { w with handles := fun j => if j = i then openHandle file mode else w.handles j }) := by
  have hne : ∀ i : Slot, UInt32.ofNat i.val ≠ noFile := by decide
  cases hf : (List.finRange 16).find? fun i => (w.handles i).isFree with
  | none =>
    refine Or.inl ⟨fun i => ?_, by simp [openResult, hf]⟩
    simpa using List.find?_eq_none.mp hf i (List.mem_finRange i)
  | some i =>
    have hfree : (w.handles i).isFree = true := by simpa using List.find?_some hf
    exact Or.inr ⟨i, hfree, hne i, by simp [openResult, hf]⟩

/-- In every tree, for every absolute path with components of at most 255 characters,
    `get_file` succeeds exactly if `lookup` finds a file, and returns that file's entry. If
    not, `fat32_open` returns -1 and leaves the handles alone; if so, it opens the file in a
    free slot, or all slots are in use. -/
theorem path_resolution {env : Env} {w : World} {dir : UInt32 → List DirItem} (hi : w.vol.isInitialized = true)
    (ht : IsTree env w.vol dir) {path : List UInt8} (h0 : ∀ c ∈ path, c ≠ 0)
    (hl : ∀ name ∈ path.splitOn 0x2F, name.length ≤ 255) (mode : UInt8) :
    ∃ res file w1 id w2, Settles (fun fuel => getFile env fuel (0x2F :: path) default w) (.ok ((res, file), w1)) ∧
      Settles (fun fuel => fat32Open env fuel (0x2F :: path) mode w) (.ok (id, w2)) ∧
      match lookup dir w.vol.rootDirCluster (path.splitOn 0x2F) with
      | some item => res = .success ∧ file.item = item ∧
          (((∀ i, (w.handles i).isFree = false) ∧ id = noFile ∧ w2.handles = w.handles) ∨
            ∃ i, (w.handles i).isFree = true ∧ id = UInt32.ofNat i.val ∧ id ≠ noFile ∧
              w2.handles = fun j => if j = i then openHandle file mode else w.handles j)
      | none => res ≠ .success ∧ id = noFile ∧ w2.handles = w.handles := by
  obtain ⟨res, file, w1, -, ha, hs⟩ := walkPath_answers hi ht default h0 hl rfl .root default
  have hget : Settles (fun fuel => getFile env fuel (0x2F :: path) default w) (.ok ((res, file), w1)) := by
    have e := fatInitRootDirIterator_apply hi default w.vol.rootDirCluster
    simp only [getFile, bind_apply, get_apply, ok_bind, e, ne_eq, not_true_eq_false, if_false]
    exact hs
  have hopen : Settles (fun fuel => fat32Open env fuel (0x2F :: path) mode w)
      (.ok (openResult mode ((res, file), w1))) := by
    simp only [fat32Open_eq]
    exact hget.map fun x => x.bind fun r => .ok (openResult mode r)
  have hhan : w1.handles = w.handles := by
    obtain ⟨N, hN⟩ := hget
    have hq : Quiet fun s => s.handles = w.handles := ⟨⟨fun _ _ h => h⟩, fun _ h => h⟩
    exact getFile_keeps env hq N (0x2F :: path) default w rfl _ _ (hN N (Nat.le_refl N))
  refine ⟨res, file, w1, (openResult mode ((res, file), w1)).1, (openResult mode ((res, file), w1)).2, hget, hopen, ?_⟩
  cases hf : lookup dir w.vol.rootDirCluster (path.splitOn 0x2F) with
  | none =>
    rw [hf] at ha
    have hr : res ≠ .success := ha
    have hres : openResult mode ((res, file), w1) = (noFile, w1) := by simp [openResult, hr]
    rw [hres]
    exact ⟨hr, rfl, hhan⟩
  | some item =>
    rw [hf] at ha
    obtain ⟨rfl, hitem⟩ := ha
    refine ⟨rfl, hitem, ?_⟩
    rcases openResult_success mode file w1 with ⟨hall, e⟩ | ⟨i, hfree, hne, e⟩
    · rw [e]
      rw [hhan] at hall
      exact Or.inl ⟨hall, rfl, hhan⟩
    · rw [e]
      rw [hhan] at hfree
      exact Or.inr ⟨i, hfree, rfl, hne, by rw [← hhan]⟩

end OpenGpos.Fat
