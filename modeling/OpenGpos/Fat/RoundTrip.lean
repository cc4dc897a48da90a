/-
  OpenGpos.Fat.RoundTrip — long names as FAT stores them (`LongEntries`, `Stored`), and which of
  them a listing gives back. A name is lost when the checksum of its short name is 0, the value
  by which the iterator means that it has gathered nothing (`longNames_kept_iff`).
-/
import OpenGpos.Fat.Names

namespace OpenGpos.Fat

/-! ## Storing a long name -/

/-- Character `p` of the entries of a name: behind the end a NUL, then padding. -/
def storedChar (name : List UInt8) (p : Nat) : UInt16 :=
  if p < name.length then (name.getD p 0).toUInt16 else if p = name.length then 0x0000 else 0xFFFF

/-- Where an entry has its character `j`. -/
def charOffset (j : Nat) : Nat := if j < 5 then 1 + 2 * j else if j < 11 then 14 + 2 * (j - 5) else 28 + 2 * (j - 11)

structure LongName (name : List UInt8) : Prop where
  pos : 0 < name.length
  le : name.length ≤ 255
  ascii : ∀ c ∈ name, c ≠ 0 ∧ c < 0x80

/-- The entries of the long name of the short entry `r`, number 1 first. -/
structure LongEntries (name : List UInt8) (r : Buf) (parts : List Buf) : Prop where
  length : parts.length = (name.length + 12) / 13
  part : ∀ n e, parts[n]? = some e → IsPart (fatSfnChecksum r) parts.length n e
  chars : ∀ n e, parts[n]? = some e → ∀ j < 13, readLe16 e (charOffset j) = storedChar name (13 * n + j)

/-- A directory in which each long name lies directly before its short entry, the last entry
    of it first, and the entries that it has, those with a long name under it. -/
inductive Stored : List Buf → List (Option (List UInt8) × Buf) → Prop
  | nil : Stored [] []
  | mark {r : Buf} {rs : List Buf} : r 0 = 0 → Stored (r :: rs) []
  | deleted {r : Buf} {rs : List Buf} {es : List (Option (List UInt8) × Buf)} : r 0 = 0xE5 → Stored rs es →
      Stored (r :: rs) es
  | label {r : Buf} {rs : List Buf} {es : List (Option (List UInt8) × Buf)} : r 0 ≠ 0 → r 11 &&& 0x0F ≠ 0x0F →
      ¬ Reported r → Stored rs es → Stored (r :: rs) es
  | short {r : Buf} {rs : List Buf} {es : List (Option (List UInt8) × Buf)} : Reported r → Stored rs es →
      Stored (r :: rs) ((none, r) :: es)
  | long {name : List UInt8} {parts : List Buf} {r : Buf} {rs : List Buf} {es : List (Option (List UInt8) × Buf)} :
      LongName name → LongEntries name r parts → Reported r → Stored rs es →
      Stored (parts.reverse ++ r :: rs) ((some name, r) :: es)

/-! ## Its text -/

/-- An ASCII character goes through the decoding. -/
theorem ascii_char {c : UInt8} (h0 : c ≠ 0) (hlt : c < 0x80) : inField c.toUInt16 = true ∧ lfnChar c.toUInt16 = c := by
  have hc : c.toNat < 0x80 := UInt8.lt_iff_toNat_lt.mp hlt
  have h1 : c.toUInt16 ≠ 0x0000 := by
    intro h
    apply h0
    apply UInt8.toNat_inj.mp
    rw [← UInt8.toNat_toUInt16, h]
    rfl
  have h2 : c.toUInt16 ≠ 0xFFFF := by
    intro h
    have hn : c.toNat = 0xFFFF := by
      rw [← UInt8.toNat_toUInt16, h]
      rfl
    omega
  have h3 : c.toUInt16 < 0x80 := by
    rw [UInt16.lt_iff_toNat_lt, UInt8.toNat_toUInt16]
    exact hc
  refine ⟨by simp [inField, h1, h2], ?_⟩
  rw [lfnChar, if_pos h3, UInt8.toUInt8_toUInt16]

theorem LongName.char {name : List UInt8} (hn : LongName name) {p : Nat} (hp : p < name.length) :
    inField (storedChar name p) = true ∧ lfnChar (storedChar name p) = name[p] := by
  obtain ⟨h0, hlt⟩ := hn.ascii name[p] (List.getElem_mem hp)
  have hc : storedChar name p = name[p].toUInt16 := by
    rw [storedChar, if_pos hp, List.getD_eq_getElem?_getD, List.getElem?_eq_getElem hp]
    rfl
  rw [hc]
  exact ascii_char h0 hlt

/-- A field that starts at character `p`. -/
theorem fieldText_stored {name : List UInt8} (hn : LongName name) (m : Nat) : ∀ p,
    fieldText ((List.range m).map fun i => storedChar name (p + i)) = (name.drop p).take m := by
  induction m with
  | zero => exact fun _ => rfl
  | succ m ih =>
    intro p
    rw [List.range_succ_eq_map, List.map_cons, List.map_map]
    by_cases hp : p < name.length
    · obtain ⟨hin, hc⟩ := hn.char hp
      have hrest : (List.range m).map ((fun i => storedChar name (p + i)) ∘ Nat.succ) =
          (List.range m).map fun i => storedChar name (p + 1 + i) := by
        apply List.map_congr_left
        intro i _
        show storedChar name (p + (i + 1)) = _
        rw [Nat.add_assoc, Nat.add_comm 1 i]
      rw [List.drop_eq_getElem_cons hp, List.take_succ_cons, ← ih (p + 1), hrest, ← hc]
      simp [fieldText, hin]
    · have hend : inField (storedChar name p) = false := by
        rw [storedChar, if_neg (by omega)]
        split <;> rfl
      rw [List.drop_eq_nil_of_le (by omega), List.take_nil]
      simp [fieldText, hend]

/-- The text of entry `n + 1` of a name. -/
theorem lfnText_stored {name : List UInt8} (hn : LongName name) {e : Buf} {n : Nat}
    (h : ∀ j < 13, readLe16 e (charOffset j) = storedChar name (13 * n + j)) : lfnText e = (name.drop (13 * n)).take 13 := by
  have field : ∀ offset a m, (∀ i < m, charOffset (a + i) = offset + 2 * i) → a + m ≤ 13 →
      fieldText (fieldChars e offset m) = (name.drop (13 * n + a)).take m := by
    intro offset a m ho hm
    rw [← fieldText_stored hn]
    apply congrArg
    apply List.map_congr_left
    intro i hi
    have hlt := List.mem_range.mp hi
    rw [← ho i hlt, h (a + i) (by omega), Nat.add_assoc]
  rw [lfnText, field 1 0 5 (by decide) (by decide), field 14 5 6 (by decide) (by decide), field 28 11 2 (by decide) (by decide)]
  rw [show 13 = 5 + 6 + 2 from rfl, List.take_add, List.take_add, List.drop_drop, List.drop_drop]
  rfl

/-- The pieces of a list. -/
theorem flatMap_pieces (name : List UInt8) (N : Nat) :
    ((List.range N).flatMap fun n => (name.drop (13 * n)).take 13) = name.take (13 * N) := by
  induction N with
  | zero => simp
  | succ N ih => rw [List.range_succ, List.flatMap_append, List.flatMap_singleton, ih, Nat.mul_succ, List.take_add]

/-! ## What is gathered of it -/

/-- Only deleted entries and labels were passed over. -/
def Idle (passed : List Buf) : Prop := ∀ e ∈ passed, e 0 = 0xE5 ∨ e 11 &&& 0x0F ≠ 0x0F

theorem gathered_idle {l : LfnLocals} (hl : l.Zeroed) {passed : List Buf} (h : Idle passed) : gathered l passed = .start l := by
  induction passed with
  | nil => rfl
  | cons e passed ih =>
    rw [gathered, ih fun x hx => h x (List.mem_cons_of_mem _ hx), Gathered.look]
    by_cases he : e 0 = 0xE5
    · rw [if_pos he]
    · have hlabel := (h e List.mem_cons_self).resolve_left he
      rw [if_neg he, if_neg hlabel, Gathered.drop, Gathered.start, hl.partsFound]

theorem LongEntries.sequence {name : List UInt8} {r : Buf} {parts : List Buf} (h : LongEntries name r parts) (older : List Buf) :
    Sequence (fatSfnChecksum r) parts.length (parts ++ older) := by
  intro n hn
  have he : parts[n]? = some parts[n] := List.getElem?_eq_getElem hn
  exact ⟨parts[n], by rw [List.getElem?_append_left hn, he], h.part n _ he⟩

/-- The iterator takes a checksum of 0 for none. -/
theorem nameOf_zero {r : Buf} (h : fatSfnChecksum r = 0) (g : Gathered) : g.nameOf r = shortName r :=
  if_neg fun ⟨hne, he⟩ => hne (he.symm.trans h)

theorem LongEntries.nameOf {name : List UInt8} {r : Buf} {parts older : List Buf} (h : LongEntries name r parts)
    (hn : LongName name) (h0 : fatSfnChecksum r ≠ 0) {l : LfnLocals} (hl : l.Zeroed) (ho : Idle older) :
    (gathered l (parts ++ older)).nameOf r = name := by
  have hlen := h.length
  have hpos := hn.pos
  have hle := hn.le
  have hN : parts.length ≤ 20 := by omega
  rw [gathered_sequence (h.sequence older) hN (by omega) h0, List.drop_left, gathered_idle hl ho]
  have hcount : ((Gathered.start l).whole (fatSfnChecksum r) parts.length (parts ++ older)).count.toNat = parts.length := by
    show ((Gathered.start l).count + UInt8.ofNat parts.length).toNat = _
    rw [show (Gathered.start l).count = 0 from hl.partsFound, UInt8.zero_add, UInt8.toNat_ofNat']
    omega
  have hrows : ∀ i ∈ List.range parts.length, ((Gathered.start l).whole (fatSfnChecksum r) parts.length (parts ++ older)).rows i =
      (name.drop (13 * i)).take 13 := by
    intro i hi
    have hlt := List.mem_range.mp hi
    have he : parts[i]? = some parts[i] := List.getElem?_eq_getElem hlt
    show (if _ then _ else _) = _
    rw [if_pos hlt, List.getD_eq_getElem?_getD, List.getElem?_map, List.getElem?_append_left hlt, he]
    exact lfnText_stored hn (h.chars i _ he)
  have hjoin := (List.flatMap_congr hrows).trans (flatMap_pieces name parts.length)
  rw [List.take_of_length_le (by omega)] at hjoin
  rw [Gathered.nameOf, if_pos ⟨h0, rfl⟩, Gathered.joined, hcount, hjoin, List.take_of_length_le hle]

/-- What is reported of a name that is stored whole. -/
theorem LongEntries.nameOf_eq_iff {name : List UInt8} {r : Buf} {parts older : List Buf} (h : LongEntries name r parts)
    (hn : LongName name) {l : LfnLocals} (hl : l.Zeroed) (ho : Idle older) :
    (gathered l (parts ++ older)).nameOf r = name ↔ fatSfnChecksum r ≠ 0 ∨ name = shortName r := by
  by_cases h0 : fatSfnChecksum r = 0
  · rw [nameOf_zero h0]
    exact ⟨fun e => Or.inr e.symm, fun e => (e.resolve_left (not_not.mpr h0)).symm⟩
  · exact iff_of_true (h.nameOf hn h0 hl ho) (Or.inl h0)

/-! ## The directory -/

theorem reports_passed {ps : List Buf} (h : ∀ e ∈ ps, e 0 ≠ 0 ∧ ¬ Reported e) (rs : List Buf) : ∀ passed,
    reports passed (ps ++ rs) = reports (ps.reverse ++ passed) rs := by
  induction ps with
  | nil => exact fun _ => rfl
  | cons e ps ih =>
    intro passed
    obtain ⟨h0, hr⟩ := h e List.mem_cons_self
    rw [List.cons_append, reports_skipped h0 hr, ih fun x hx => h x (List.mem_cons_of_mem _ hx), List.reverse_cons,
      List.append_assoc]
    rfl

theorem LongEntries.passed {name : List UInt8} {r : Buf} {parts : List Buf} (h : LongEntries name r parts) :
    ∀ e ∈ parts.reverse, e 0 ≠ 0 ∧ ¬ Reported e := by
  intro e he
  obtain ⟨n, hn, rfl⟩ := List.mem_iff_getElem.mp (List.mem_reverse.mp he)
  have hp := h.part n _ (List.getElem?_eq_getElem hn)
  refine ⟨fun h0 => ?_, fun hr => hr.2.2.1 hp.attributes⟩
  have hord := hp.order
  rw [h0] at hord
  have hpos : 0 < if n + 1 = parts.length then parts.length ||| 0x40 else n + 1 := by
    by_cases hl : n + 1 = parts.length
    · rw [if_pos hl]
      exact Nat.lt_of_lt_of_le (by omega) Nat.left_le_or
    · rw [if_neg hl]
      omega
  rw [← hord] at hpos
  exact absurd hpos (by decide)

/-- A reported entry, with what was passed over before it, and the entry as it was stored. -/
def Matches (p : List Buf × Buf) (e : Option (List UInt8) × Buf) : Prop :=
  p.2 = e.2 ∧ ∀ name, e.1 = some name → LongName name ∧
    ∃ parts older, p.1 = parts ++ older ∧ Idle older ∧ LongEntries name e.2 parts

theorem reports_stored {rs : List Buf} {es : List (Option (List UInt8) × Buf)} (h : Stored rs es) : ∀ passed, Idle passed →
    List.Forall₂ Matches (reports passed rs) es := by
  have more : ∀ {e passed}, Idle passed → (e 0 = 0xE5 ∨ e 11 &&& 0x0F ≠ 0x0F) → Idle (e :: passed) := by
    intro e passed hp he x hx
    rcases List.mem_cons.mp hx with rfl | hx
    · exact he
    · exact hp x hx
  induction h with
  | nil => exact fun _ _ => .nil
  | mark h0 =>
    intro passed _
    rw [reports_end h0]
    exact .nil
  | deleted he _ ih =>
    intro passed hp
    rw [reports_skipped (by rw [he]; decide) fun hr => hr.2.1 he]
    exact ih _ (more hp (Or.inl he))
  | label h0 hl hr _ ih =>
    intro passed hp
    rw [reports_skipped h0 hr]
    exact ih _ (more hp (Or.inr hl))
  | short hr _ ih =>
    intro passed _
    rw [reports_reported hr]
    exact .cons ⟨rfl, fun name hc => by cases hc⟩ (ih [] fun e he => by cases he)
  | @long name parts r rs es hn hl hr _ ih =>
    intro passed hp
    rw [reports_passed hl.passed, List.reverse_reverse, reports_reported hr]
    refine .cons ⟨rfl, fun name' hc => ?_⟩ (ih [] fun e he => by cases he)
    cases hc
    exact ⟨hn, parts, passed, rfl, hp, hl⟩

/-- Every entry is reported, those with a long name under exactly that name. -/
def NamesKept (es : List (Option (List UInt8) × Buf)) (infos : List FileInfo) : Prop :=
  List.Forall₂ (fun e info => Decodes info e.2 ∧ ∀ name, e.1 = some name → info.name = name) es infos

/-- A listing of the directory keeps the names. -/
def RoundTrip (env : Env) (w : World) (c : UInt32) (cs : List UInt32) (es : List (Option (List UInt8) × Buf)) : Prop :=
  Lists env w c cs (NamesKept es)

theorem names_matched {env : Env} (hz : ∀ k, (env.stack k).Zeroed) {ps : List (List Buf × Buf)}
    {es : List (Option (List UInt8) × Buf)} (h : List.Forall₂ Matches ps es) : ∀ {k : Nat} {infos : List FileInfo},
    infos.map FileInfo.name = ps.mapIdx (fun i p => (gathered (env.stack (k + i)) p.1).nameOf p.2) →
    List.Forall₂ Decodes infos (ps.map Prod.snd) →
    (NamesKept es infos ↔ ∀ name r, (some name, r) ∈ es → fatSfnChecksum r ≠ 0 ∨ name = shortName r) := by
  induction h with
  | nil =>
    intro k infos hnames _
    obtain rfl : infos = [] := List.map_eq_nil_iff.mp hnames
    exact iff_of_true .nil fun name r he => by cases he
  | @cons p e ps es hm _ ih =>
    intro k infos hnames hdec
    cases infos with
    | nil => cases hdec
    | cons info infos =>
      obtain ⟨hp, hlong⟩ := hm
      rw [List.map_cons, List.forall₂_cons, hp] at hdec
      rw [List.map_cons, List.mapIdx_cons, List.cons.injEq] at hnames
      have hrest : infos.map FileInfo.name = ps.mapIdx fun i p => (gathered (env.stack (k + 1 + i)) p.1).nameOf p.2 := by
        rw [hnames.2]
        simp only [Nat.add_assoc, Nat.add_comm 1]
      have hhead : ∀ name, e.1 = some name → (info.name = name ↔ fatSfnChecksum e.2 ≠ 0 ∨ name = shortName e.2) := by
        intro name he
        obtain ⟨hn, parts, older, hpassed, ho, hl⟩ := hlong name he
        rw [hnames.1, hpassed, hp]
        exact hl.nameOf_eq_iff hn (hz _) ho
      rw [NamesKept, List.forall₂_cons]
      constructor
      · rintro ⟨⟨-, hkept⟩, hall⟩ name r he
        rcases List.mem_cons.mp he with rfl | he
        · exact (hhead name rfl).mp (hkept name rfl)
        · exact (ih hrest hdec.2).mp hall name r he
      · intro hcond
        refine ⟨⟨hdec.1, fun name he => (hhead name he).mpr (hcond name e.2 ?_)⟩, (ih hrest hdec.2).mpr fun name r he => ?_⟩
        · rw [← he]
          exact List.mem_cons_self
        · exact hcond name r (List.mem_cons_of_mem _ he)

/-- A directory whose long names are all stored as FAT stores them is listed under these names,
    unless a short name has checksum 0 and is not the long one too. -/
theorem longNames_kept_iff {env : Env} {w : World} {cs : List UInt32} {c : UInt32} {es : List (Option (List UInt8) × Buf)}
    (hv : w.vol.WellFormed) (ha : ∀ k, env.fails k = false) (hch : Chain env w.vol cs) (hc : cs[0]? = some c)
    (hz : ∀ k, (env.stack k).Zeroed) (hs : Stored (records env w.vol cs) es) :
    RoundTrip env w c cs es ↔ ∀ name r, (some name, r) ∈ es → fatSfnChecksum r ≠ 0 ∨ name = shortName r := by
  have hps := reports_stored hs [] fun e he => by cases he
  exact lists_iff hv ha hch hc hz fun infos hnames hdec => names_matched hz hps hnames hdec

/-! ## A card with another root directory -/

/-- The sample card with `entries` for its root directory. -/
def rootDisk (entries : List UInt8) : Env := { sampleCard with
  block := fun lba i => if lba = 3 then entries.getD i 0 else sampleCard.block lba i }

def rootWorld (entries : List UInt8) : World := after (fat32Init (rootDisk entries) World.boot)

theorem rootWorld_vol (entries : List UInt8) : (rootWorld entries).vol = sampleVolume := by
  have hmbr : mbrPartition sampleCard = some 0 := by decide +kernel
  have hvol : mountedVolume sampleCard World.boot.vol 0 = sampleVolume := by decide +kernel
  have hspc : bpbData sampleCard (readLe32 (mbrData sampleCard) (0 * 16 + 8)) 0x02 ≠ 0 := by decide +kernel
  have hlba : readLe32 (mbrData sampleCard) (0 * 16 + 8) = 1 := by decide +kernel
  have hm : mbrData (rootDisk entries) = mbrData sampleCard := rfl
  have hb : bpbData (rootDisk entries) 1 = bpbData sampleCard 1 := rfl
  rcases fat32Init_cases (rootDisk entries) World.boot with ⟨hc, -⟩ | ⟨i, hp, -, -, h⟩
  · have hnone : ¬ mbrPartition (rootDisk entries) = none := by
      rw [mbrPartition, hm, ← mbrPartition, hmbr]
      simp
    rcases hc with hc | hc | hc
    · cases hc
    · exact absurd hc hnone
    · cases hc
  · rw [mbrPartition, hm, ← mbrPartition, hmbr] at hp
    cases hp
    rw [hm, hlba, hb, ← hlba, if_neg hspc] at h
    obtain ⟨cs, e⟩ := h
    rw [rootWorld, e, ← hvol]
    unfold mountedVolume
    dsimp only [after]
    rw [hm, hlba, hb]

theorem rootDisk_chain (entries : List UInt8) : Chain (rootDisk entries) sampleVolume [2] := by
  have h2 : fatEntry sampleCard sampleVolume 2 = 0x0FFFFFF8 := by decide +kernel
  have h2' : fatEntry (rootDisk entries) sampleVolume 2 = fatEntry sampleCard sampleVolume 2 := rfl
  refine ⟨⟨by decide, by decide⟩, ?_⟩
  rw [h2', h2]
  exact ⟨by decide, by decide⟩

/-! ## A file of thirteen characters

`program files`, in one entry, with the short name `PROGRA~` and a digit. -/

def programFiles : List UInt8 := [0x70, 0x72, 0x6F, 0x67, 0x72, 0x61, 0x6D, 0x20, 0x66, 0x69, 0x6C, 0x65, 0x73]

def progra (digit : UInt8) : List UInt8 := [0x50, 0x52, 0x4F, 0x47, 0x52, 0x41, 0x7E, digit, 0x20, 0x20, 0x20]

def programEntries (digit : UInt8) : List UInt8 :=
  [0x41, 0x70, 0, 0x72, 0, 0x6F, 0, 0x67, 0, 0x72, 0, 0x0F, 0, fatSfnChecksum fun i => (progra digit).getD i 0,
    0x61, 0, 0x6D, 0, 0x20, 0, 0x66, 0, 0x69, 0, 0x6C, 0, 0, 0, 0x65, 0, 0x73, 0] ++
  progra digit ++ [0x20, 0, 0, 0, 0, 0, 0, 0, 0, 0, 0, 0, 0, 0, 0, 3, 0, 0x58, 2]

def programDisk (digit : UInt8) : Env := rootDisk (programEntries digit)

def programWorld (digit : UInt8) : World := rootWorld (programEntries digit)

theorem programDisk_stored {digit : UInt8} (hd : digit = 0x31 ∨ digit = 0x34) :
    Stored (records (programDisk digit) sampleVolume [2])
      [(some programFiles, record (programDisk digit) sampleVolume [2] 1)] := by
  let r := record (programDisk digit) sampleVolume [2]
  have hpart : r 0 11 &&& 0x0F = 0x0F ∧ r 0 13 = fatSfnChecksum (r 1) ∧ (r 0 0).toNat = 1 ||| 0x40 := by
    rcases hd with rfl | rfl <;> decide +kernel
  have hchars : ∀ j < 13, readLe16 (r 0) (charOffset j) = storedChar programFiles j := by
    rcases hd with rfl | rfl <;> decide +kernel
  have hrest : Reported (r 1) ∧ r 2 0 = 0 := by rcases hd with rfl | rfl <;> decide +kernel
  have hn : LongName programFiles := ⟨by decide, by decide, by decide +kernel⟩
  have hl : LongEntries programFiles (r 1) [r 0] := by
    refine ⟨rfl, fun n e he => ?_, fun n e he => ?_⟩
    · obtain ⟨rfl, rfl⟩ : n = 0 ∧ r 0 = e := by
        cases n with
        | zero => exact ⟨rfl, Option.some.inj he⟩
        | succ n => cases he
      exact ⟨hpart.1, hpart.2.1, hpart.2.2.trans (if_pos rfl).symm⟩
    · obtain ⟨rfl, rfl⟩ : n = 0 ∧ r 0 = e := by
        cases n with
        | zero => exact ⟨rfl, Option.some.inj he⟩
        | succ n => cases he
      intro j hj
      rw [hchars j hj, Nat.mul_zero, Nat.zero_add]
  have hpos : 0 < recordCount sampleVolume [2] := by decide
  have hrecords := records_drop (programDisk digit) hpos
  rw [List.drop_zero, records_drop (programDisk digit) (n := 0 + 1) (by decide),
    records_drop (programDisk digit) (n := 0 + 1 + 1) (by decide)] at hrecords
  rw [hrecords]
  exact .long hn hl hrest.1 (.mark hrest.2)

theorem longNames_kept_progra1 : RoundTrip (programDisk 0x31) (programWorld 0x31) 2 [2]
    [(some programFiles, record (programDisk 0x31) sampleVolume [2] 1)] := by
  have hvol : (programWorld 0x31).vol = sampleVolume := rootWorld_vol _
  have hs := @programDisk_stored 0x31 (Or.inl rfl)
  have hsum : fatSfnChecksum (record (programDisk 0x31) sampleVolume [2] 1) ≠ 0 := by decide +kernel
  apply (longNames_kept_iff (by rw [hvol]; exact sampleVolume_wellFormed) (fun _ => rfl) (by rw [hvol]; exact rootDisk_chain _)
    rfl (fun _ => ⟨rfl, fun _ _ => rfl⟩) (by rw [hvol]; exact hs)).mpr
  intro name r he
  cases List.mem_singleton.mp he
  exact Or.inl hsum

/-- The short name `PROGRA~4` has checksum 0. -/
theorem longName_lost : Stored (records (programDisk 0x34) sampleVolume [2])
      [(some programFiles, record (programDisk 0x34) sampleVolume [2] 1)] ∧
    ¬ RoundTrip (programDisk 0x34) (programWorld 0x34) 2 [2]
      [(some programFiles, record (programDisk 0x34) sampleVolume [2] 1)] := by
  have hvol : (programWorld 0x34).vol = sampleVolume := rootWorld_vol _
  have hs := @programDisk_stored 0x34 (Or.inr rfl)
  refine ⟨hs, fun hrt => ?_⟩
  have hz : ∀ k, ((programDisk 0x34).stack k).Zeroed := fun _ => ⟨rfl, fun _ _ => rfl⟩
  have hps := reports_stored hs [] fun e he => by cases he
  have hcond := (lists_iff (by rw [hvol]; exact sampleVolume_wellFormed) (fun _ => rfl) (by rw [hvol]; exact rootDisk_chain _) rfl hz
    fun infos hnames hdec => names_matched hz (by rw [hvol]; exact hps) hnames hdec).mp hrt _ _ (List.mem_singleton.mpr rfl)
  have hsum : fatSfnChecksum (record (programDisk 0x34) sampleVolume [2] 1) = 0 := by decide +kernel
  have hname : programFiles ≠ shortName (record (programDisk 0x34) sampleVolume [2] 1) := by decide +kernel
  rcases hcond with h | h
  · exact h hsum
  · exact hname h

end OpenGpos.Fat
