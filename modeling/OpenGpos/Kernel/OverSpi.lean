/-
  OpenGpos.Kernel.OverSpi — the layers on top of each other: FAT32.c asks SD.c, and SD.c drives
  spi.c, whose port is slower than the processor and has a card at its other end. What the file layer
  does on the blocks of that card, the layers do together down to the wire: any file calls
  (`requests_over_spi`), and kernel_main up to the program's entry point (`boots_over_spi`).
-/
import OpenGpos.Fat.Requests
import OpenGpos.Fat.Stream
import OpenGpos.Kernel.Load
import OpenGpos.Sd.Session

namespace OpenGpos.Kernel.OverSpi

open OpenGpos.Lib.Dialogs OpenGpos.Lib.Fifo OpenGpos.Lib.Hoare OpenGpos.Lib.Runs OpenGpos.Lib.Streams OpenGpos.Fat
open OpenGpos.Sd hiding Call
open OpenGpos.Libc.Heap (HeapM Region)

/-! ## SD.c under the file layer -/

/-- The card as the file layer sees it. -/
def blocksOf (card : Card) (stack : Nat → LfnLocals) : Env where
  block a i := (card.block a).getD i 0
  fails _ := false
  junk _ _ old := old
  stack := stack

/-- The parameters of SDReadPartialBlock are 16 bits wide. -/
def sdCall : SdCall → ReadCall
  | .readBlock block => .block block
  | .readPartialBlock block offset length => .part block offset.toUInt16 length.toUInt16

section
variable {α β : Type}

/-- Every question is a call of SD.c. -/
def overSpi : Dialog SdCall Reply α → SpiProg α
  | .done a => pure a
  | .ask q k => (sdCall q).prog >>= fun r => overSpi (k r)

variable {card : SdhcCard} {stack : Nat → LfnLocals} {p : Phase}

theorem range_getD {l : List UInt8} {n k : Nat} (h : n + k ≤ l.length) :
    ((List.range k).map fun i => l.getD (n + i) 0) = (l.drop n).take k := by
  apply List.ext_getElem
  · simp only [List.length_map, List.length_range, List.length_take, List.length_drop]
    omega
  · intro i h1 h2
    simp only [List.length_map, List.length_range] at h1
    rw [List.getElem_map, List.getElem_range, List.getElem_take, List.getElem_drop, List.getD_eq_getElem?_getD,
      List.getElem?_eq_getElem (by omega)]
    rfl

theorem sdCall_fits {q : SdCall} (hq : q.InBlock) : (sdCall q).Fits := by
  cases q with
  | readBlock block => trivial
  | readPartialBlock block offset length =>
    obtain ⟨h, -⟩ := hq
    show offset.toUInt16.toNat + length.toUInt16.toNat ≤ 512
    rw [UInt32.toNat_toUInt16, UInt32.toNat_toUInt16]
    omega

/-- What SD.c brings is what the file layer reckons with. -/
theorem expected_eq (card : Card) {q : SdCall} (hq : q.InBlock) :
    (sdCall q).expected card = reply (blocksOf card stack) q := by
  have hfit := sdCall_fits hq
  cases q with
  | readBlock block =>
    have h := range_getD (l := card.block block) (n := 0) (k := 512) (by rw [card.length_block]; decide)
    have hlen : (card.block block).length ≤ 512 := Nat.le_of_eq (card.length_block block)
    rw [List.drop_zero, List.take_of_length_le hlen] at h
    simp only [Nat.zero_add] at h
    exact congrArg (Prod.mk true) h.symm
  | readPartialBlock block offset length =>
    have h := range_getD (l := card.block block) (n := offset.toUInt16.toNat) (k := length.toUInt16.toNat)
      (by rw [card.length_block]; exact hfit)
    exact congrArg (Prod.mk true) h.symm

theorem serves_overSpi (hin : ∀ i, card.InTime i) (d : Dialog SdCall Reply α) : ∀ {p : Phase}, p.ready = true →
    (∀ q ∈ d.asked (reply (blocksOf card.toCard stack)), q.InBlock) →
    ∃ p', Serves card.respond p (overSpi d) (d.result (reply (blocksOf card.toCard stack))) p' ∧ p'.ready = true := by
  induction d with
  | done a => exact fun {p} hp _ => ⟨p, .pure a, hp⟩
  | ask q k ih =>
    intro p hp hasked
    have hq := hasked q List.mem_cons_self
    obtain ⟨p', h, hp'⟩ := ReadCall.serves hin hp (sdCall_fits hq)
    have heq : (sdCall q).expected card.toCard = reply (blocksOf card.toCard stack) q := expected_eq card.toCard hq
    rw [heq] at h
    obtain ⟨p'', h', hp''⟩ := ih _ hp' fun x hx => hasked x (List.mem_cons_of_mem _ hx)
    exact ⟨p'', h.bind h', hp''⟩

/-- Whatever contains the file layer: its run on the blocks of the card is what the layers do. -/
theorem serves_asking (hin : ∀ i, card.InTime i) {σ ε : Type} {part : σ → World} {x : Env → StateT σ (Except ε) α}
    (hx : Asking (cardReads.on part) x) {s s' : σ} {a : α} (hrun : x (blocksOf card.toCard stack) s = .ok (a, s'))
    (hblock : AllInBlock (part s')) (hp : p.ready = true) :
    ∃ p', Serves card.respond p (overSpi (hx.dialog stack s)) (.ok (a, s')) p' ∧ p'.ready = true := by
  have hans : (cardReads.on part).answers (blocksOf card.toCard stack) := fun _ => rfl
  have hsame : x (blocksOf card.toCard stack) s = (hx.dialog stack s).result (reply (blocksOf card.toCard stack)) :=
    hx.same _ hans s
  have hlog : (part s').calls =
      ((hx.dialog stack s).asked (reply (blocksOf card.toCard stack))).reverse ++ (part s).calls :=
    hx.log _ hans s a s' hrun
  rw [hrun] at hsame
  rw [hsame]
  refine serves_overSpi hin _ hp fun q hq => hblock q ?_
  rw [hlog]
  exact List.mem_append_left _ (List.mem_reverse.mpr hq)

end

/-- SDInit, and the rest if it succeeds. -/
def behindInit {α : Type} (fallback : α) (rest : SpiProg α) : SpiProg α := do
  let ok ← sdInit
  if ok then rest else pure fallback

/-- On a card that SDInit accepts. -/
theorem serves_behindInit {α : Type} {card : SdhcCard} (hbusy : card.busy < 5000) (hccs : card.ocr0 &&& 0x40 ≠ 0)
    (p : Phase) {fallback a : α} {rest : SpiProg α}
    (h : ∀ p', p'.ready = true → ∃ p'', Serves card.respond p' rest a p'' ∧ p''.ready = true) :
    ∃ p', Serves card.respond p (behindInit fallback rest) a p' := by
  obtain ⟨p', hs, hready⟩ := serves_sdInit card p
  rw [decide_eq_true ⟨hbusy, hccs⟩] at hs
  obtain ⟨p'', h', -⟩ := h p' (hready.trans (decide_eq_true hbusy))
  exact ⟨p'', hs.bind h'⟩

/-! ## File calls -/

/-- A card with a well-formed volume, all of whose files hold. -/
structure GoodVolume (env : Env) (w : World) : Prop where
  sector : w.vol.bytesPerSector = 512
  spc : w.vol.sectorsPerCluster ≠ 0
  clusters : w.vol.totalClusters.toNat + 2 ≤ 0x0FFFFFF7
  files : FilesHold env w.vol

theorem GoodVolume.wellFormed {env : Env} {w0 w : World} (hg : GoodVolume env w)
    (h : fat32Init env w0 = .ok (true, w)) :
    w.vol.WellFormed := mounted_wellFormed h hg.sector hg.spc hg.clusters

/-- The mount, and file calls if it succeeds. -/
def mountAndRun (env : Env) (fuel : Nat) (rs : List Request) : FatM (Option (List Call)) := do
  let ok ← fat32Init env
  if ok then
    let ls ← runRequests env fuel rs
    return some ls
  else return none

def mountAndRunAsks (fuel : Nat) (rs : List Request) : FatAsks fun env => mountAndRun env fuel rs :=
  fat32InitAsks.bind fun _ => .ite _ ((runRequestsAsks fuel rs).bind fun _ => .pure _) (.pure _)

/-- From power-up: SDInit, the mount and file calls. -/
def filesOverSpi (stack : Nat → LfnLocals) (fuel : Nat) (rs : List Request) :
    SpiProg (Except Halt (Option (List Call) × World)) :=
  behindInit (.ok (none, World.boot)) (overSpi ((mountAndRunAsks fuel rs).dialog stack World.boot))

section
variable {card : SdhcCard} {stack : Nat → LfnLocals} {m n : Nat}

/-- On a port slower than the processor, with a card that SDInit accepts and whose tokens do not come
    with the last poll, and a volume on it whose files hold, file calls bring what they bring on the
    blocks themselves; so the calls and their answers are a run of streams, and what the reads of a
    handle gave since it was opened is a prefix of its file. -/
theorem requests_over_spi (hbusy : card.busy < 5000) (hccs : card.ocr0 &&& 0x40 ≠ 0) (hin : ∀ i, card.InTime i)
    {w w' : World} {fuel : Nat}
    {rs : List Request} {ls : List Call} (hmount : fat32Init (blocksOf card.toCard stack) World.boot = .ok (true, w))
    (hvol : GoodVolume (blocksOf card.toCard stack) w) (hsmall : ∀ r ∈ rs, r.Small)
    (hrun : runRequests (blocksOf card.toCard stack) fuel rs w = .ok (ls, w'))
    (hm : m ≤ fifoDepth) (hn : n ≤ fifoDepth) (p : Phase) :
    (∃ tx rx s, ∀ c,
      PromptSteps fifoDepth (listen card.respond) ⟨filesOverSpi stack fuel rs, idle m, idle n, ⟨p, [], []⟩⟩ c →
      PromptSteps fifoDepth (listen card.respond) c ⟨.done (.ok (some ls, w')), tx, rx, s⟩) ∧
    ∃ es t, List.Forall₂ Shows ls es ∧ Run (Step (Names (blocksOf card.toCard stack) w.vol)) (fun _ => none) es t ∧
      Refines (blocksOf card.toCard stack) w.vol w' t ∧
      ∀ i s, t i = some s → ∃ a b path, es = a ++ .opened path (some i) :: b ∧ Stays i b ∧
        Names (blocksOf card.toCard stack) w.vol path (received i b ++ s.rest) := by
  have hv := hvol.wellFormed hmount
  have hsteps := runRequests_run hrun hsmall
  have hserved := run_served hv hvol.files (fun _ => rfl) (served_init hmount fun c hc => by cases hc) hsteps
  constructor
  · have hall : mountAndRun (blocksOf card.toCard stack) fuel rs World.boot = .ok (some ls, w') := by
      simp [mountAndRun, hmount, hrun]
    obtain ⟨p', hs⟩ := serves_behindInit hbusy hccs p fun p' hp' =>
      serves_asking hin (show Asking (cardReads.on id) _ from mountAndRunAsks fuel rs) hall hserved.inside hp'
    exact hs.outcome hm hn
  · obtain ⟨es, t, hes, hrun', href⟩ := run_refines hv hvol.files (fun _ => rfl) (refines_init hmount) hsteps
    exact ⟨es, t, hes, hrun', href, fun i s hi => run_prefix hrun' hi⟩

end

/-! ## A card with one program -/

/-- The first bytes of a block. -/
def sector (f : Nat → UInt8) : List UInt8 := (List.range sdBlockSize).map f

theorem sector_getD (f : Nat → UInt8) (i : Nat) : (sector f).getD i 0 = if i < sdBlockSize then f i else 0 := by
  unfold sector
  rw [List.getD_eq_getElem?_getD, List.getElem?_map]
  by_cases hi : i < sdBlockSize
  · rw [if_pos hi, List.getElem?_range hi, Option.map_some, Option.getD_some]
  · rw [if_neg hi, List.getElem?_eq_none (by rw [List.length_range]; omega), Option.map_none, Option.getD_none]

/-- A card with the bytes of one of the file layer. -/
def sdhcOf (bytes : List (UInt32 × Nat × UInt8)) : SdhcCard :=
  { zeroSdhc with
    block := fun a => sector ((Fat.card bytes).block a)
    length_block := fun _ => by rw [sector, List.length_map, List.length_range] }

theorem sdhcOf_inTime (bytes : List (UInt32 × Nat × UInt8)) (i : Nat) : (sdhcOf bytes).InTime i :=
  show 0 + 1 < 0xFFFF by decide

theorem blocksOf_sdhcOf {bytes : List (UInt32 × Nat × UInt8)} (h : ∀ b ∈ bytes, b.2.1 < sdBlockSize) :
    blocksOf (sdhcOf bytes).toCard (Fat.card bytes).stack = Fat.card bytes := by
  have hblock : (fun a i => (sector ((Fat.card bytes).block a)).getD i 0) = (Fat.card bytes).block := by
    funext a i
    rw [sector_getD]
    split
    · rfl
    · -- no byte is listed there
      rename_i hi
      have hnone : (bytes.find? fun b => b.1 == a && b.2.1 == i) = none := by
        apply List.find?_eq_none.mpr
        intro b hb hc
        have hlt := h b hb
        simp only [Bool.and_eq_true, beq_iff_eq] at hc
        omega
      simp only [Fat.card, hnone, Option.map_none, Option.getD_none]
  simp only [blocksOf, sdhcOf, hblock]
  rfl

/-- The root directory is one cluster and has no directories in it. -/
theorem filesHold_of_root {env : Env} {v : VolumeInfo} (hv : v.Sectors)
    (hend : ∀ d, fatResult (fatEntry env v v.rootDirCluster) ≠ (.success, d))
    (hdir : ∀ s < v.sectorsPerCluster.toNat, ∀ k < 16, ¬IsDir (dirEntry env v v.rootDirCluster s k))
    (hfile : ∀ s < v.sectorsPerCluster.toNat, ∀ k < 16, Reported (dirEntry env v v.rootDirCluster s k) →
      ∃ cs, Holds env v (entryCluster (dirEntry env v v.rootDirCluster s k))
        (readLe32 (dirEntry env v v.rootDirCluster s k) 28).toNat cs) :
    FilesHold env v := by
  have hroot : ∀ {c}, DirReach env v c → c = v.rootDirCluster := by
    intro c h
    induction h with
    | root => rfl
    | next _ _ hf ih =>
      rw [ih] at hf
      exact absurd hf (hend _)
    | sub _ hs hk _ hd ih =>
      rw [ih] at hd
      exact absurd hd (hdir _ hs _ hk)
  apply EntriesHold.filesHold _ hv
  rintro e ⟨c, s, k, hc, hs, hk, rfl⟩ hr _
  rw [hroot hc] at hr ⊢
  exact hfile s hs k hk hr

/-- The program as `/A`. -/
def programBytes : List (UInt32 × Nat × UInt8) := [
  (0, 446, 0x80), (0, 450, 0x0C), (0, 454, 1), (0, 458, 100), (0, 510, 0x55), (0, 511, 0xAA),
  (1, 0x0C, 2), (1, 0x0D, 1), (1, 0x0E, 1), (1, 0x10, 1), (1, 36, 1), (1, 44, 2),
  (2, 8, 0xF8), (2, 9, 0xFF), (2, 10, 0xFF), (2, 11, 0x0F), (2, 12, 0xF8), (2, 13, 0xFF), (2, 14, 0xFF), (2, 15, 0x0F),
  (3, 0, 0x41), (3, 1, 0x20), (3, 8, 0x20), (3, 26, 3), (3, 28, 88)] ++
  (smallProgram 0x20009000).zipIdx.map fun b => (4, b.2, b.1)

theorem program_blocks : blocksOf (sdhcOf programBytes).toCard (Fat.card programBytes).stack = Fat.card programBytes :=
  blocksOf_sdhcOf (by decide +kernel)

theorem program_goodVolume {w : World} (hw : w.vol = sampleVolume) : GoodVolume (Fat.card programBytes) w := by
  refine ⟨by rw [hw]; rfl, by rw [hw]; decide, by rw [hw]; decide, ?_⟩
  rw [hw]
  have h2 : fatEntry (Fat.card programBytes) sampleVolume 2 = 0x0FFFFFF8 := by decide +kernel
  have h3 : fatEntry (Fat.card programBytes) sampleVolume 3 = 0x0FFFFFF8 := by decide +kernel
  have hdir : ∀ s < 1, ∀ k < 16, ¬IsDir (dirEntry (Fat.card programBytes) sampleVolume 2 s k) := by decide +kernel
  have hent : ∀ s < 1, ∀ k < 16, Reported (dirEntry (Fat.card programBytes) sampleVolume 2 s k) →
      entryCluster (dirEntry (Fat.card programBytes) sampleVolume 2 s k) = 3 ∧
      readLe32 (dirEntry (Fat.card programBytes) sampleVolume 2 s k) 28 = 88 := by decide +kernel
  refine filesHold_of_root sampleVolume_wellFormed.sectors (fun d hd => ?_) hdir fun s hs k hk hr => ?_
  · rw [show fatEntry (Fat.card programBytes) sampleVolume sampleVolume.rootDirCluster = 0x0FFFFFF8 from h2] at hd
    cases hd
  · obtain ⟨hc, hsize⟩ := hent s hs k hk hr
    refine ⟨[3], ?_⟩
    rw [show entryCluster (dirEntry (Fat.card programBytes) sampleVolume sampleVolume.rootDirCluster s k) = 3 from hc,
      show readLe32 (dirEntry (Fat.card programBytes) sampleVolume sampleVolume.rootDirCluster s k) 28 = 88 from hsize]
    refine ⟨⟨rfl, ⟨by decide, by decide⟩, ?_⟩, by decide, by decide⟩
    rw [h3]
    exact ⟨by decide, by decide⟩

/-! ## kernel_main -/

section
variable {α : Type}

abbrev KernelAsks {α : Type} (x : Env → KernelM α) := Asking (cardReads.on Machine.fat) x

def onFatAsks {x : Env → FatM α} (hx : FatAsks x) : KernelAsks fun env => onFat (x env) :=
  .view Machine.fat (fun k r => onFat (fun _ => r) k) (by
    intro k r b k' h
    obtain ⟨w, hr, rfl⟩ := onFat_inv h
    exact ⟨b, w, hr, rfl⟩) fun _ => hx

def onHeapAsks (x : HeapM α) : KernelAsks fun _ => onHeap x :=
  .lift (onHeap x) (by
    intro k a k' h
    obtain ⟨_, _, rfl⟩ := onHeap_inv h
    rfl)

/-- What fat32_read returned and left in its buffer, in the memory. -/
def readTo (data : Nat) (k : Machine) : Except Halt ((Bool × Option Buf) × World) → Except Stop (Bool × Machine)
  | .ok ((ok, buffer), w) => .ok (ok, { (k.putBytes data (buffer.getD (k.bytesAt data))) with fat := w })
  | .error h => .error (.fat h)

def fat32ReadToAsks (fileId : UInt32) (data : Nat) (size : UInt32) :
    KernelAsks fun env => fat32ReadTo env fileId data size :=
  .view Machine.fat (readTo data) (by
    intro k r b k' h
    cases r with
    | error _ => cases h
    | ok r =>
      cases h
      exact ⟨r.1, r.2, rfl, rfl⟩) fun k => fat32ReadAsks fileId (some (k.bytesAt data)) size

def readFileAsks (fuel : Nat) (path : List UInt8) : KernelAsks fun env => readFile env fuel path := by
  unfold readFile
  refine (onFatAsks (fat32OpenAsks fuel path 0)).bind fun fileId => ?_
  refine (onFatAsks (fat32GetSizeAsks fileId)).bind fun size => ?_
  refine (onHeapAsks (Libc.Heap.malloc size)).bind fun data => .ite _ (.pure _) ?_
  exact (fat32ReadToAsks fileId data size).bind fun _ => .pure _

def loadELFAsks (fuel : Nat) (path : List UInt8) : KernelAsks fun env => loadELF env fuel path := by
  unfold loadELF
  refine (readFileAsks fuel path).bind fun r => .ite _ (.pure _) ?_
  refine Asking.bind (.lift get (by intro k a k' h; cases h; rfl)) fun k => .ite _ (.pure _) ?_
  refine Asking.bind (.lift (modify _) ?_) fun _ => (onHeapAsks (Libc.Heap.free r.1)).bind fun _ => .pure _
  intro k a k' h
  cases h
  exact congrArg World.calls (loadSegments_rest _ _ _ _ k).1

def kernelMainAtAsks (path : List UInt8) (fuel : Nat) (r : Region) (sdReady : Bool) :
    KernelAsks fun env => kernelMainAt path env fuel r sdReady := by
  unfold kernelMainAt prepare
  refine .ite _ (.pure _) (Asking.bind ?_ fun _ => (loadELFAsks fuel path).bind fun _ => .pure _)
  exact (onHeapAsks (Libc.Heap.initMalloc r)).bind fun _ => (onFatAsks fat32InitAsks).bind fun _ => .pure _

/-! What loadELF asks of the file layer is in range, whatever its file is. -/

variable {env : Env} {v : VolumeInfo} {P : World → Prop}

theorem onFat_triple {x : FatM α} {Q : α → World → Prop} (h : Triple P x Q) :
    Triple (fun k : Machine => P k.fat) (onFat x) fun a k => Q a k.fat := by
  intro k hk a k' e
  obtain ⟨w, hw, rfl⟩ := onFat_inv e
  exact h k.fat hk a w hw

theorem onHeap_triple (x : HeapM α) : Triple (fun k : Machine => P k.fat) (onHeap x) fun _ k => P k.fat := by
  intro k hk a k' e
  obtain ⟨_, _, rfl⟩ := onHeap_inv e
  exact hk

/-- The handle that an open gives out is open. -/
def Opened (id : UInt32) (w : World) : Prop := ∀ hi : id.toNat < 16, (w.handles ⟨id.toNat, hi⟩).isFree = false

section
variable (hv : v.WellFormed) (hf : FilesHold env v) (ha : ∀ k, env.fails k = false)
include hv hf ha

theorem fat32Open_served (fuel : Nat) (path : List UInt8) (mode : UInt8) :
    Triple (Served env v) (fat32Open env fuel path mode) fun id w => Served env v w ∧ Opened id w := by
  intro w hw id w' e
  refine ⟨step_served (l := .openFile path mode id) hv hf ha hw trivial (.openFile e), fun hi => ?_⟩
  obtain ⟨-, ⟨rfl, -⟩ | ⟨i, file, -, -, rfl, hh⟩⟩ := fat32Open_cases e
  · exact absurd hi (by decide)
  · rw [hh]
    have hlt := i.isLt
    have hid : (UInt32.ofNat i.val).toNat = i.val := by
      rw [UInt32.toNat_ofNat']
      omega
    have hs : (⟨(UInt32.ofNat i.val).toNat, hi⟩ : Slot) = i := Fin.ext hid
    simp only [hs, if_true]
    rfl

omit hv hf ha in
theorem fat32GetSize_served (id : UInt32) : Triple (fun w => Served env v w ∧ Opened id w) (fat32GetSize id)
    fun size w => Served env v w ∧ size.toNat < 2 ^ 31 := by
  rintro w ⟨hw, hopen⟩ size w' e
  unfold fat32GetSize at e
  split at e
  · rename_i hi
    simp only [Fat.bind_apply, Fat.get_apply, ok_bind] at e
    cases e
    obtain ⟨cs, hcs⟩ := hw.onFiles _ (hopen hi)
    exact ⟨hw, hcs.holds.small⟩
  · cases e
    exact ⟨hw, by decide⟩

theorem fat32ReadTo_served (id : UInt32) (data : Nat) {size : UInt32} (hs : size.toNat < 2 ^ 31) :
    Triple (fun k : Machine => Served env v k.fat) (fat32ReadTo env id data size) fun _ k => Served env v k.fat := by
  intro k hk ok k' e
  obtain ⟨buffer, w, e', rfl⟩ := fat32ReadTo_inv e
  exact step_served (l := .read id _ size ok buffer) hv hf ha hk hs (.read e')

theorem readFile_served (fuel : Nat) (path : List UInt8) :
    Triple (fun k : Machine => Served env v k.fat) (readFile env fuel path) fun _ k => Served env v k.fat := by
  unfold readFile
  refine Triple.bind (onFat_triple (fat32Open_served hv hf ha fuel path 0)) fun id => ?_
  refine Triple.bind (onFat_triple (fat32GetSize_served id)) fun size => ?_
  refine Triple.bind (onHeap_triple (P := fun w => Served env v w ∧ size.toNat < 2 ^ 31) _) fun data => ?_
  refine Triple.ite (fun _ => Triple.pure fun _ h => h.1) fun _ => ?_
  rintro k ⟨hk, hs⟩ r k' e
  obtain ⟨ok, k1, hread, hret⟩ := bind_inv e
  cases hret
  exact fat32ReadTo_served hv hf ha id data hs k hk ok _ hread

theorem loadELF_served (fuel : Nat) (path : List UInt8) :
    Triple (fun k : Machine => Served env v k.fat) (loadELF env fuel path) fun _ k => Served env v k.fat := by
  unfold loadELF
  refine Triple.bind (readFile_served hv hf ha fuel path) fun r => ?_
  refine Triple.ite (fun _ => Triple.pure fun _ h => h) fun _ => ?_
  refine Triple.get_bind fun t ht => ?_
  have here : ∀ k, k = t → Served env v k.fat := fun k hk => hk ▸ ht
  refine Triple.ite (fun _ => Triple.pure here) fun _ => ?_
  refine Triple.bind (R := fun _ k => Served env v k.fat) (Triple.modify fun k hk => ?_) fun _ =>
    Triple.bind (onHeap_triple _) fun _ => Triple.pure fun _ h => h
  rw [(loadSegments_rest _ _ _ _ k).1]
  exact here k hk

end

/-- From power-up: SDInit, and with its result kernel_main up to the call of the program. -/
def bootOverSpi (stack : Nat → LfnLocals) (path : List UInt8) (fuel : Nat) (r : Region) (k : Machine) :
    SpiProg (Except Stop (Option UInt32 × Machine)) := do
  let ok ← sdInit
  overSpi ((kernelMainAtAsks path fuel r ok).dialog stack k)

variable {card : SdhcCard} {stack : Nat → LfnLocals} {m n : Nat}

/-- What kernel_main does on the blocks of a card with a good volume, from its power-up to the entry
    point it calls, it does on a port slower than the processor with that card at its other end:
    the same memory and the same entry point, whatever the delays of the card as long as its tokens do
    not come with the last poll. -/
theorem boots_over_spi (hbusy : card.busy < 5000) (hccs : card.ocr0 &&& 0x40 ≠ 0) (hin : ∀ i, card.InTime i) {w : World}
    {path : List UInt8} {fuel : Nat} {r : Region} {k k' : Machine} {entry : Option UInt32} (hfat : k.fat = World.boot)
    (hmount : fat32Init (blocksOf card.toCard stack) World.boot = .ok (true, w))
    (hvol : GoodVolume (blocksOf card.toCard stack) w)
    (hrun : kernelMainAt path (blocksOf card.toCard stack) fuel r true k = .ok (entry, k'))
    (hm : m ≤ fifoDepth) (hn : n ≤ fifoDepth) (p : Phase) : ∃ tx rx s, ∀ c,
      PromptSteps fifoDepth (listen card.respond) ⟨bootOverSpi stack path fuel r k, idle m, idle n, ⟨p, [], []⟩⟩ c →
      PromptSteps fifoDepth (listen card.respond) c ⟨.done (.ok (entry, k')), tx, rx, s⟩ := by
  have hv := hvol.wellFormed hmount
  have hserved : Served (blocksOf card.toCard stack) w.vol k'.fat := by
    have hmain : (prepare (blocksOf card.toCard stack) r >>= fun _ =>
        loadELF (blocksOf card.toCard stack) fuel path >>= fun e =>
      pure (some e)) k = .ok (entry, k') := hrun
    obtain ⟨_, k1, hprep, hrest⟩ := bind_inv hmain
    obtain ⟨_, k2, hload, hret⟩ := bind_inv hrest
    cases hret
    obtain ⟨_, k3, hheap, hinit⟩ := bind_inv hprep
    obtain ⟨_, _, rfl⟩ := onHeap_inv hheap
    obtain ⟨_, k4, hfs, hret⟩ := bind_inv hinit
    cases hret
    obtain ⟨w', hw', rfl⟩ := onFat_inv hfs
    rw [hfat, hmount] at hw'
    cases hw'
    exact loadELF_served hv hvol.files (fun _ => rfl) fuel path _ (served_init hmount fun c hc => by cases hc) _ _ hload
  obtain ⟨p', hs, hready⟩ := serves_sdInit card p
  rw [decide_eq_true ⟨hbusy, hccs⟩] at hs
  obtain ⟨p'', hs', -⟩ := serves_asking hin (kernelMainAtAsks path fuel r true) hrun hserved.inside (hready.trans (decide_eq_true hbusy))
  exact (hs.bind hs').outcome hm hn

end

/-! Both, on the card with one program. -/

theorem program_mounts : ∃ w, fat32Init (Fat.card programBytes) World.boot = .ok (true, w) ∧ w.vol = sampleVolume := by
  have h0 : answer (fat32Init (Fat.card programBytes) World.boot) = some true := by decide +kernel
  exact ⟨_, answer_some h0, by decide +kernel⟩

/-- `/A` opened, read and closed, from a port full of 0xFF. -/
theorem requests_over_spi_program : ∃ ls w' tx rx s, ls.length = 3 ∧ ∀ c,
    PromptSteps fifoDepth (listen (sdhcOf programBytes).respond)
      ⟨filesOverSpi (Fat.card programBytes).stack 9 [.openFile [0x2F, 0x41] 0, .read 0 (some fun _ => 0) 88, .close 0],
        idle 8, idle 8, ⟨⟨0, false, false, 0⟩, [], []⟩⟩ c →
    PromptSteps fifoDepth (listen (sdhcOf programBytes).respond) c ⟨.done (.ok (some ls, w')), tx, rx, s⟩ := by
  obtain ⟨w, hmount, hvol⟩ := program_mounts
  have hw : w = after (fat32Init (Fat.card programBytes) World.boot) := by rw [hmount]; rfl
  let rs : List Request := [.openFile [0x2F, 0x41] 0, .read 0 (some fun _ => 0) 88, .close 0]
  have hlen : (answer (runRequests (Fat.card programBytes) 9 rs w)).map List.length = some 3 := by
    rw [hw]
    decide +kernel
  obtain ⟨ls, hrun, hls⟩ := Option.map_eq_some_iff.mp hlen
  have hgood := program_goodVolume hvol
  rw [← program_blocks] at hmount hgood
  have hrun' := answer_some hrun
  rw [← program_blocks] at hrun'
  have hsmall : ∀ r ∈ rs, r.Small := by
    intro r hr
    simp only [rs, List.mem_cons, List.not_mem_nil, or_false] at hr
    rcases hr with rfl | rfl | rfl
    · trivial
    · show (88 : UInt32).toNat < 2 ^ 31
      decide
    · trivial
  obtain ⟨⟨tx, rx, s, h⟩, -⟩ := requests_over_spi (m := 8) (n := 8) (by decide) (by decide)
      (sdhcOf_inTime _) hmount hgood hsmall hrun'
    (Nat.le_refl 8) (Nat.le_refl 8) ⟨0, false, false, 0⟩
  exact ⟨ls, _, tx, rx, s, hls, h⟩

/-- `/A` loaded, from an empty port. -/
theorem boots_over_spi_program : ∃ k' tx rx s, ∀ c, PromptSteps fifoDepth (listen (sdhcOf programBytes).respond)
      ⟨bootOverSpi (Fat.card programBytes).stack [0x2F, 0x41] 9 Libc.Heap.board bootMachine, [], [],
        ⟨⟨0, false, false, 0⟩, [], []⟩⟩ c →
    PromptSteps fifoDepth (listen (sdhcOf programBytes).respond) c ⟨.done (.ok (some 0x20008000, k')), tx, rx, s⟩ := by
  obtain ⟨w, hmount, hvol⟩ := program_mounts
  have hboot : outcome (kernelMainAt [0x2F, 0x41] (Fat.card programBytes) 9 Libc.Heap.board true bootMachine) =
      some (some 0x20008000) := by decide +kernel
  have hrun := outcome_some bootMachine hboot
  have hgood := program_goodVolume hvol
  rw [← program_blocks] at hmount hgood hrun
  obtain ⟨tx, rx, s, h⟩ := boots_over_spi (m := 0) (n := 0) (by decide) (by decide) (sdhcOf_inTime _) rfl hmount hgood hrun
    (Nat.zero_le _) (Nat.zero_le _) ⟨0, false, false, 0⟩
  exact ⟨_, tx, rx, s, h⟩

end OpenGpos.Kernel.OverSpi
