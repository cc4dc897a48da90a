/-
  OpenGpos.Fat.LongName — what the iterator gathers of a long name. An entry of a long name
  has a text (`lfnText`); what the entries passed over leave behind is a checksum, a count and
  rows of text (`Gathered`), changed by each entry in turn (`Gathered.look`). What a call has at hand
  for names (`Decoding`) goes through the same turns and holds it (`Gathered.HeldBy`), and the name
  that is reported is read off it (`Gathered.nameOf`).
-/
import Mathlib
import OpenGpos.Fat.Entry

namespace OpenGpos.Fat

open OpenGpos.Lib.Bytes OpenGpos.Libc.Strings

/-! ## The text of an entry -/

/-- A character that does not end its field. -/
def inField (wc : UInt16) : Bool := wc != 0x0000 && wc != 0xFFFF

def lfnChar (wc : UInt16) : UInt8 := if wc < 0x80 then wc.toUInt8 else 0x3F

/-- The bytes that a field of characters gives. -/
def fieldText (chars : List UInt16) : List UInt8 := (chars.takeWhile inField).map lfnChar

/-- The `n` characters at `offset`. -/
def fieldChars (e : Buf) (offset n : Nat) : List UInt16 := (List.range n).map fun i => readLe16 e (offset + 2 * i)

/-- The text of a long-name entry: each of its three fields up to that field's own end. -/
def lfnText (e : Buf) : List UInt8 :=
  fieldText (fieldChars e 1 5) ++ fieldText (fieldChars e 14 6) ++ fieldText (fieldChars e 28 2)

theorem length_fieldText_le (chars : List UInt16) : (fieldText chars).length ≤ chars.length := by
  unfold fieldText
  rw [List.length_map]
  exact (List.takeWhile_prefix _).length_le

theorem length_fieldText_fieldChars (e : Buf) (offset n : Nat) : (fieldText (fieldChars e offset n)).length ≤ n := by
  have h := length_fieldText_le (fieldChars e offset n)
  rwa [fieldChars, List.length_map, List.length_range] at h

theorem length_lfnText (e : Buf) : (lfnText e).length ≤ 13 := by
  have h1 := length_fieldText_fieldChars e 1 5
  have h2 := length_fieldText_fieldChars e 14 6
  have h3 := length_fieldText_fieldChars e 28 2
  unfold lfnText
  rw [List.length_append, List.length_append]
  omega

theorem lfnChar_ne_zero {wc : UInt16} (h : wc ≠ 0) : lfnChar wc ≠ 0 := by
  unfold lfnChar
  by_cases hlt : wc < 0x80
  · rw [if_pos hlt]
    intro h0
    apply h
    have hlt' : wc.toNat < 0x80 := UInt16.lt_iff_toNat_lt.mp hlt
    have h0' : wc.toNat % 2 ^ 8 = 0 := congrArg UInt8.toNat h0
    apply UInt16.toNat_inj.mp
    show wc.toNat = 0
    omega
  · rw [if_neg hlt]
    decide

/-- What the copying loop leaves, once the NUL is behind it. -/
theorem lfnToUtf8Loop_spec (dst maxLen : Nat) (chars : List UInt16) :
    ∀ (buf : Buf) (cur : Nat), cur + chars.length < maxLen →
    ∃ buf', lfnToUtf8Loop dst maxLen chars buf cur = (buf', cur + (fieldText chars).length) ∧
      StringAt (store8 buf' (dst + (cur + (fieldText chars).length)) 0) (dst + cur) (fieldText chars) ∧
      ∀ j, j < dst + cur ∨ dst + cur + (fieldText chars).length ≤ j → buf' j = buf j := by
  induction chars with
  | nil => exact fun buf cur _ => ⟨buf, rfl, store8_same .., fun j _ => rfl⟩
  | cons wc rest ih =>
    intro buf cur hlt
    rw [List.length_cons] at hlt
    by_cases hend : wc = 0x0000 ∨ wc = 0xFFFF
    · have ht : fieldText (wc :: rest) = [] := by
        rcases hend with rfl | rfl <;> rfl
      rw [lfnToUtf8Loop, if_pos hend, ht]
      exact ⟨buf, rfl, store8_same .., fun j _ => rfl⟩
    · have hin : inField wc = true := by simpa [inField, not_or] using hend
      have ht : fieldText (wc :: rest) = lfnChar wc :: fieldText rest := by
        simp [fieldText, hin]
      obtain ⟨buf', e, hstr, hout⟩ := ih (store8 buf (dst + cur) (lfnChar wc)) (cur + 1) (by omega)
      rw [lfnToUtf8Loop, if_neg hend, if_pos (by omega), ht, List.length_cons]
      rw [show cur + 1 + (fieldText rest).length = cur + ((fieldText rest).length + 1) by omega] at e hstr
      refine ⟨buf', e, ⟨?_, lfnChar_ne_zero fun h => hend (Or.inl h), hstr⟩, fun j hj => ?_⟩
      · rw [store8_out (by omega), hout _ (Or.inl (by omega))]
        exact store8_same ..
      · rw [hout j (by omega)]
        exact store8_out (by omega)

/-- `fat_lfn_to_utf8` writes the text of a field, and a NUL. -/
theorem fatLfnToUtf8_spec (e : Buf) (offset n : Nat) (buf : Buf) (dst maxLen cur : Nat) (hlt : cur + n < maxLen) :
    ∃ buf', fatLfnToUtf8 e offset (2 * n) buf dst maxLen cur = (buf', (fieldText (fieldChars e offset n)).length) ∧
      StringAt buf' (dst + cur) (fieldText (fieldChars e offset n)) ∧
      ∀ j, j < dst + cur ∨ dst + cur + (fieldText (fieldChars e offset n)).length < j → buf' j = buf j := by
  have hlen : (fieldChars e offset n).length = n := by rw [fieldChars, List.length_map, List.length_range]
  obtain ⟨buf', h, hstr, hout⟩ := lfnToUtf8Loop_spec dst maxLen (fieldChars e offset n) buf cur (by rw [hlen]; exact hlt)
  refine ⟨_, ?_, hstr, fun j hj => ?_⟩
  · have hc : (List.range n).map (fun i => readLe16 e (offset + 2 * i)) = fieldChars e offset n := rfl
    simp only [fatLfnToUtf8, Nat.mul_div_cancel_left n (show 0 < 2 by decide), hc, h, Nat.add_sub_cancel_left]
  · rw [store8_out (by omega)]
    exact hout j (by omega)

/-- The three fields, one behind the other. -/
theorem lfnRow_spec (e buf : Buf) (dst : Nat) : ∃ buf', StringAt buf' dst (lfnText e) ∧
    (∀ j, j < dst ∨ dst + 13 < j → buf' j = buf j) ∧ (
      let (buffer, n1) := fatLfnToUtf8 e 1 10 buf dst 256 0
      let (buffer, n2) := fatLfnToUtf8 e 14 12 buffer dst 256 n1
      (fatLfnToUtf8 e 28 4 buffer dst 256 (n1 + n2)).1) = buf' := by
  have h1 := length_fieldText_fieldChars e 1 5
  have h2 := length_fieldText_fieldChars e 14 6
  have h3 := length_fieldText_fieldChars e 28 2
  obtain ⟨b1, e1, hs1, ho1⟩ := fatLfnToUtf8_spec e 1 5 buf dst 256 0 (by decide)
  obtain ⟨b2, e2, hs2, ho2⟩ := fatLfnToUtf8_spec e 14 6 b1 dst 256 (fieldText (fieldChars e 1 5)).length (by omega)
  obtain ⟨b3, e3, hs3, ho3⟩ := fatLfnToUtf8_spec e 28 2 b2 dst 256
    ((fieldText (fieldChars e 1 5)).length + (fieldText (fieldChars e 14 6)).length) (by omega)
  refine ⟨b3, ?_, fun j hj => ?_, ?_⟩
  · unfold lfnText
    apply StringAt.append (s := b2)
    · exact hs1.append (fun j _ hj => ho2 j (by omega)) hs2
    · intro j _ hj
      rw [List.length_append] at hj
      exact ho3 j (by omega)
    · rw [List.length_append]
      exact hs3
  · rw [ho3 j (by omega), ho2 j (by omega), ho1 j (by omega)]
  · simp only [show (10 : Nat) = 2 * 5 from rfl, show (12 : Nat) = 2 * 6 from rfl, show (4 : Nat) = 2 * 2 from rfl, e1,
      e2, e3]

/-! ## What the entries passed over leave behind -/

/-- The number of a long-name entry. -/
def lfnOrder (e : Buf) : UInt8 := e 0 &&& 0xBF

/-- A number that has a row. -/
def HasRow (e : Buf) : Prop := ¬ (lfnOrder e = 0 ∨ 20 < lfnOrder e)

/-- The entry that stands first of its name on disk. -/
def StartsName (e : Buf) : Prop := e 0 &&& 0x40 ≠ 0

instance (e : Buf) : Decidable (HasRow e) := by unfold HasRow; infer_instance
instance (e : Buf) : Decidable (StartsName e) := by unfold StartsName; infer_instance

/-- The row of an entry. -/
def lfnRow (e : Buf) : Nat := (lfnOrder e).toNat - 1

/-- What was gathered: a checksum, or 0 for none, how many entries, and the text of each row. -/
structure Gathered where
  sum : UInt8
  count : UInt8
  rows : Nat → List UInt8

/-- At the start of a call. -/
def Gathered.start (l : LfnLocals) : Gathered := ⟨0, l.partsFound, fun i => cstring l.buffer (i * 40) 255⟩

/-- The rows stay: only the checksum and the count are taken back. -/
def Gathered.drop (g : Gathered) : Gathered := { g with sum := 0, count := 0 }

/-- One more entry of a name. -/
def Gathered.add (g : Gathered) (e : Buf) : Gathered where
  sum := if StartsName e then e 13 else g.sum
  count := g.count + 1
  rows i := if i = lfnRow e then lfnText e else g.rows i

/-- An entry that is passed over. -/
def Gathered.look (g : Gathered) (e : Buf) : Gathered :=
  if e 0 = 0xE5 then g
  else if e 11 &&& 0x0F = 0x0F then
    if HasRow e ∧ (StartsName e ∨ g.sum ≠ 0) then g.add e else g.drop
  else g.drop

/-- The rows that are counted, joined and cut to the room there is. -/
def Gathered.joined (g : Gathered) : List UInt8 := ((List.range g.count.toNat).flatMap g.rows).take 255

/-- The short name as a string. -/
def shortName (e : Buf) : List UInt8 := (sfnChars e).takeWhile (· != 0)

/-- The name that is reported for a short entry. -/
def Gathered.nameOf (g : Gathered) (e : Buf) : List UInt8 :=
  if g.sum ≠ 0 ∧ fatSfnChecksum e = g.sum then g.joined else shortName e

/-- The name in the record that is handed out. -/
def FileInfo.name (info : FileInfo) : List UInt8 := cstring info.filename 0 256

/-- The locals, and the checksum in the iterator, hold what was gathered. -/
structure Gathered.HeldBy (g : Gathered) (lfnChecksum : UInt8) (l : LfnLocals) : Prop where
  sum : lfnChecksum = g.sum
  count : l.partsFound = g.count
  row : ∀ i < 20, StringAt l.buffer (i * 40) (g.rows i) ∧ (g.rows i).length ≤ 13
  /-- What lies behind the rows. -/
  behind : ∀ i, 20 ≤ i → cstring l.buffer (i * 40) 255 = g.rows i

/-- The locals at the start of a call, as the claims take them. -/
structure LfnLocals.Zeroed (l : LfnLocals) : Prop where
  partsFound : l.partsFound = 0
  buffer : ∀ j < 800, l.buffer j = 0

theorem LfnLocals.Zeroed.start_row {l : LfnLocals} (h : l.Zeroed) {i : Nat} (hi : i < 20) :
    (Gathered.start l).rows i = [] :=
  if_pos (h.buffer (i * 40) (by omega))

theorem LfnLocals.Zeroed.heldBy {l : LfnLocals} (h : l.Zeroed) : (Gathered.start l).HeldBy 0 l := by
  refine ⟨rfl, rfl, fun i hi => ?_, fun i _ => rfl⟩
  rw [h.start_row hi]
  exact ⟨h.buffer (i * 40) (by omega), Nat.zero_le _⟩

theorem Gathered.HeldBy.text {g : Gathered} {k : UInt8} {l : LfnLocals} (h : g.HeldBy k l) (i : Nat) :
    cstring l.buffer (i * 40) 255 = g.rows i := by
  by_cases hi : i < 20
  · obtain ⟨hs, hlen⟩ := h.row i hi
    exact hs.cstring (by omega)
  · exact h.behind i (by omega)

theorem Gathered.HeldBy.drop {g : Gathered} {k : UInt8} {l : LfnLocals} (h : g.HeldBy k l) :
    g.drop.HeldBy 0 { l with partsFound := 0 } :=
  ⟨rfl, rfl, h.row, h.behind⟩

/-! ## The code gathers -/

theorem hasRow_row {e : Buf} (h : HasRow e) : lfnRow e < 20 := by
  unfold HasRow at h
  rw [not_or, UInt8.not_lt, UInt8.le_iff_toNat_le] at h
  have h20 : (lfnOrder e).toNat ≤ 20 := h.2
  unfold lfnRow
  omega

/-- The three fields written to the row of the entry. -/
def rowWritten (e buffer : Buf) : Buf :=
  let (buffer, n1) := fatLfnToUtf8 e 1 10 buffer (lfnRow e * 40) 256 0
  let (buffer, n2) := fatLfnToUtf8 e 14 12 buffer (lfnRow e * 40) 256 n1
  (fatLfnToUtf8 e 28 4 buffer (lfnRow e * 40) 256 (n1 + n2)).1

theorem rowWritten_spec (e buffer : Buf) : StringAt (rowWritten e buffer) (lfnRow e * 40) (lfnText e) ∧
    ∀ j, j < lfnRow e * 40 ∨ lfnRow e * 40 + 13 < j → rowWritten e buffer j = buffer j := by
  obtain ⟨buf', hstr, hout, h⟩ := lfnRow_spec e buffer (lfnRow e * 40)
  rw [show rowWritten e buffer = buf' from h]
  exact ⟨hstr, hout⟩

theorem lfnEntry_eq (e : Buf) (iter : DirIter) (l : LfnLocals) : lfnEntry e iter l =
    if HasRow e ∧ (StartsName e ∨ iter.lfnChecksum ≠ 0) then
      ({ iter with lfnChecksum := if StartsName e then e 13 else iter.lfnChecksum },
        ⟨rowWritten e l.buffer, l.partsFound + 1⟩)
    else ({ iter with lfnChecksum := 0 }, { l with partsFound := 0 }) := by
  unfold lfnEntry
  dsimp only
  by_cases hr : HasRow e
  · by_cases hs : StartsName e ∨ iter.lfnChecksum ≠ 0
    · have hk : ¬ (e 0 &&& 0x40 = 0 ∧ iter.lfnChecksum = 0) := by
        rintro ⟨h1, h2⟩
        rcases hs with hs | hs
        · exact hs h1
        · exact hs h2
      have hiter : (if e 0 &&& 0x40 ≠ 0 then { iter with lfnChecksum := e 13 } else iter) =
          { iter with lfnChecksum := if StartsName e then e 13 else iter.lfnChecksum } := by
        by_cases hf : StartsName e
        · rw [if_pos hf, if_pos (show e 0 &&& 0x40 ≠ 0 from hf)]
        · rw [if_neg hf, if_neg (show ¬ e 0 &&& 0x40 ≠ 0 from hf)]
      rw [if_pos (show HasRow e ∧ _ from ⟨hr, hs⟩), hiter]
      exact (if_neg hr).trans (if_neg hk)
    · have hk : e 0 &&& 0x40 = 0 ∧ iter.lfnChecksum = 0 := by
        rw [not_or] at hs
        exact ⟨not_not.mp hs.1, not_not.mp hs.2⟩
      have hn : ¬ (HasRow e ∧ (StartsName e ∨ iter.lfnChecksum ≠ 0)) := fun h => hs h.2
      rw [if_neg hn]
      exact (if_neg hr).trans (if_pos hk)
  · have hn : ¬ (HasRow e ∧ (StartsName e ∨ iter.lfnChecksum ≠ 0)) := fun h => hr h.1
    rw [if_neg hn]
    exact if_pos (not_not.mp hr)

/-- What a call has at hand for names: the checksum in the iterator, the locals, and the record. -/
structure Decoding where
  lfnChecksum : UInt8
  locals : LfnLocals
  info : FileInfo

/-- A short entry is decoded, be it reported or a label. -/
def IsShort (e : Buf) : Prop := e 0 ≠ 0xE5 ∧ e 11 &&& 0x0F ≠ 0x0F

instance (e : Buf) : Decidable (IsShort e) := by unfold IsShort; infer_instance

def Decoding.pass (d : Decoding) (e : Buf) : Decoding :=
  if e 0 = 0xE5 then d
  else if e 11 &&& 0x0F = 0x0F then
    if HasRow e ∧ (StartsName e ∨ d.lfnChecksum ≠ 0) then
      ⟨if StartsName e then e 13 else d.lfnChecksum, ⟨rowWritten e d.locals.buffer, d.locals.partsFound + 1⟩, d.info⟩
    else ⟨0, { d.locals with partsFound := 0 }, d.info⟩
  else ⟨0, { d.locals with partsFound := 0 }, sfnEntry e d.lfnChecksum d.locals d.info⟩

theorem Decoding.pass_short {e : Buf} (h : IsShort e) (d : Decoding) :
    d.pass e = ⟨0, { d.locals with partsFound := 0 }, sfnEntry e d.lfnChecksum d.locals d.info⟩ :=
  (if_neg h.1).trans (if_neg h.2)

/-- The record changes only with a short entry. -/
theorem Decoding.pass_info {e : Buf} (h : ¬ IsShort e) (d : Decoding) : (d.pass e).info = d.info := by
  unfold Decoding.pass
  by_cases h1 : e 0 = 0xE5
  · rw [if_pos h1]
  · have h2 : e 11 &&& 0x0F = 0x0F := by
      by_contra h2
      exact h ⟨h1, h2⟩
    rw [if_neg h1, if_pos h2]
    split <;> rfl

/-- An entry that is passed over. -/
theorem entryTurn_pass {e : Buf} (h0 : e 0 ≠ 0) (hr : ¬ Reported e) (iter : DirIter) (d : Decoding) :
    entryTurn e { iter with lfnChecksum := d.lfnChecksum } d.locals d.info =
      .again { iter with lfnChecksum := (d.pass e).lfnChecksum } (d.pass e).locals (d.pass e).info := by
  unfold entryTurn Decoding.pass
  rw [if_neg h0]
  by_cases h1 : e 0 = 0xE5
  · rw [if_pos h1, if_pos h1]
  rw [if_neg h1, if_neg h1]
  by_cases h2 : e 11 &&& 0x0F = 0x0F
  · rw [if_pos h2, if_pos h2, lfnEntry_eq]
    by_cases ha : HasRow e ∧ (StartsName e ∨ d.lfnChecksum ≠ 0)
    · rw [if_pos ha, if_pos ha]
    · rw [if_neg ha, if_neg ha]
  rw [if_neg h2, if_neg h2]
  have h3 : e 11 &&& 0x08 ≠ 0 ∧ e 11 &&& 0x10 = 0 := by
    by_contra hn
    exact hr ⟨h0, h1, h2, hn⟩
  have hlabel : (sfnEntry e d.lfnChecksum d.locals d.info).attributes &&& 0x08 ≠ 0 ∧
      (sfnEntry e d.lfnChecksum d.locals d.info).isDirectory = false := by
    simpa [sfnEntry] using h3
  exact if_pos hlabel

/-- One that is reported. -/
theorem entryTurn_last {e : Buf} (hr : Reported e) (iter : DirIter) (d : Decoding) :
    entryTurn e { iter with lfnChecksum := d.lfnChecksum } d.locals d.info =
      .done .success { iter with lfnChecksum := (d.pass e).lfnChecksum } (d.pass e).info := by
  rw [entryTurn_reports (fun i _ => rfl) _ _ _ hr, Decoding.pass_short ⟨hr.2.1, hr.2.2.1⟩]

/-- What is kept up along the entries: it holds on if it does where an entry is gathered, and where
    what was gathered is dropped. -/
theorem Decoding.pass_keeps {G : Type} {R : G → Decoding → Prop} {look add : G → Buf → G} {drop : G → G}
    {sum : G → UInt8}
    (hlook : ∀ g e, look g e =
      if e 0 = 0xE5 then g
      else if e 11 &&& 0x0F = 0x0F then if HasRow e ∧ (StartsName e ∨ sum g ≠ 0) then add g e else drop g
      else drop g)
    (hsum : ∀ g d, R g d → d.lfnChecksum = sum g)
    (hadd : ∀ g d e, R g d → HasRow e → R (add g e)
      ⟨if StartsName e then e 13 else d.lfnChecksum, ⟨rowWritten e d.locals.buffer, d.locals.partsFound + 1⟩, d.info⟩)
    (hdrop : ∀ g d info, R g d → R (drop g) ⟨0, { d.locals with partsFound := 0 }, info⟩)
    {g : G} {d : Decoding} (h : R g d) (e : Buf) : R (look g e) (d.pass e) := by
  rw [hlook]
  unfold Decoding.pass
  by_cases h1 : e 0 = 0xE5
  · rw [if_pos h1, if_pos h1]
    exact h
  rw [if_neg h1, if_neg h1, hsum g d h]
  by_cases h2 : e 11 &&& 0x0F = 0x0F
  · rw [if_pos h2, if_pos h2]
    by_cases ha : HasRow e ∧ (StartsName e ∨ sum g ≠ 0)
    · rw [if_pos ha, if_pos ha, ← hsum g d h]
      exact hadd g d e h ha.1
    · rw [if_neg ha, if_neg ha]
      exact hdrop g d d.info h
  · rw [if_neg h2, if_neg h2]
    exact hdrop g d _ h

/-- An entry that is gathered. -/
theorem Gathered.HeldBy.add {g : Gathered} {k : UInt8} {l : LfnLocals} {e : Buf} (h : g.HeldBy k l) (hr : HasRow e) :
    (g.add e).HeldBy (if StartsName e then e 13 else k) ⟨rowWritten e l.buffer, l.partsFound + 1⟩ := by
  have hrow := hasRow_row hr
  obtain ⟨hstr, hout⟩ := rowWritten_spec e l.buffer
  refine ⟨by rw [h.sum]; rfl, congrArg (· + 1) h.count, fun i hi => ?_, fun i hi => ?_⟩
  · show StringAt (rowWritten e l.buffer) (i * 40) (if _ then _ else _) ∧ (if _ then _ else _ : List UInt8).length ≤ 13
    by_cases he : i = lfnRow e
    · rw [if_pos he, he]
      exact ⟨hstr, length_lfnText e⟩
    · rw [if_neg he]
      obtain ⟨hs, hlen⟩ := h.row i hi
      exact ⟨hs.congr fun j h1 h2 => hout j (by omega), hlen⟩
  · show cstring (rowWritten e l.buffer) (i * 40) 255 = if _ then _ else _
    rw [if_neg (by omega), ← h.behind i hi]
    exact cstring_congr fun j h1 h2 => hout j (by omega)

/-- An entry leaves what `look` says. -/
theorem Gathered.HeldBy.pass {g : Gathered} {d : Decoding} (h : g.HeldBy d.lfnChecksum d.locals) (e : Buf) :
    (g.look e).HeldBy (d.pass e).lfnChecksum (d.pass e).locals :=
  Decoding.pass_keeps (R := fun (g : Gathered) d => g.HeldBy d.lfnChecksum d.locals) (fun _ _ => rfl)
    (fun _ _ h => h.sum) (fun _ _ _ h hr => h.add hr) (fun _ _ _ h => h.drop) h e

theorem Agree.lfnText {e e' : Buf} (h : Agree e e') : lfnText e = lfnText e' := by
  have field : ∀ offset n, offset + 2 * n ≤ 32 → fieldChars e offset n = fieldChars e' offset n := by
    intro offset n hn
    apply List.map_congr_left
    intro i hi
    have := List.mem_range.mp hi
    exact h.readLe16 _ (by omega)
  unfold OpenGpos.Fat.lfnText
  rw [field 1 5 (by decide), field 14 6 (by decide), field 28 2 (by decide)]

theorem Agree.hasRow {e e' : Buf} (h : Agree e e') : HasRow e ↔ HasRow e' := by
  simp only [HasRow, lfnOrder, h 0 (by omega)]

theorem Agree.startsName {e e' : Buf} (h : Agree e e') : StartsName e ↔ StartsName e' := by
  simp only [StartsName, h 0 (by omega)]

theorem Agree.lfnRow {e e' : Buf} (h : Agree e e') : lfnRow e = lfnRow e' := by
  simp only [OpenGpos.Fat.lfnRow, lfnOrder, h 0 (by omega)]

theorem Agree.look {e e' : Buf} (h : Agree e e') (g : Gathered) : g.look e = g.look e' := by
  have hadd : g.add e = g.add e' := by
    rw [Gathered.add, Gathered.add, if_congr h.startsName (h 13 (by omega)) rfl, h.lfnText, h.lfnRow]
  rw [Gathered.look, Gathered.look, h 0 (by omega), h 11 (by omega), hadd]
  exact if_congr Iff.rfl rfl
    (if_congr Iff.rfl (if_congr (and_congr h.hasRow (or_congr h.startsName Iff.rfl)) rfl rfl) rfl)

theorem Agree.checksum {e e' : Buf} (h : Agree e e') : fatSfnChecksum e = fatSfnChecksum e' := by
  apply List.foldl_ext
  intro sum i hi
  have := List.mem_range.mp hi
  rw [h i (by omega)]

theorem Agree.rowWritten {e e' : Buf} (h : Agree e e') (buffer : Buf) : rowWritten e buffer = rowWritten e' buffer := by
  have field : ∀ offset n, offset + n ≤ 32 → ∀ buffer dst maxLen len,
      fatLfnToUtf8 e offset n buffer dst maxLen len = fatLfnToUtf8 e' offset n buffer dst maxLen len := by
    intro offset n hle buffer dst maxLen len
    have hchars : ((List.range (n / 2)).map fun i => OpenGpos.Fat.readLe16 e (offset + 2 * i)) =
        (List.range (n / 2)).map fun i => OpenGpos.Fat.readLe16 e' (offset + 2 * i) := by
      apply List.map_congr_left
      intro i hi
      have := List.mem_range.mp hi
      exact h.readLe16 _ (by omega)
    unfold fatLfnToUtf8
    rw [hchars]
  unfold OpenGpos.Fat.rowWritten
  simp only [h.lfnRow, field 1 10 (by decide), field 14 12 (by decide), field 28 4 (by decide)]

theorem Agree.sfnEntry {e e' : Buf} (h : Agree e e') (k : UInt8) (l : LfnLocals) (info : FileInfo) :
    sfnEntry e k l info = sfnEntry e' k l info := by
  have hname : fatSfnToString e info.filename = fatSfnToString e' info.filename := by
    unfold fatSfnToString
    rw [h.sfnChars]
  unfold OpenGpos.Fat.sfnEntry
  rw [h.checksum, hname, h.readLe16 20 (by omega), h.readLe16 26 (by omega), h.readLe32 28 (by omega), h 11 (by omega)]

theorem Agree.pass {e e' : Buf} (h : Agree e e') (d : Decoding) : d.pass e = d.pass e' := by
  unfold Decoding.pass
  rw [h 0 (by omega), h 11 (by omega), h 13 (by omega), h.rowWritten, h.sfnEntry, if_congr h.startsName rfl rfl]
  exact if_congr Iff.rfl rfl
    (if_congr Iff.rfl (if_congr (and_congr h.hasRow (or_congr h.startsName Iff.rfl)) rfl rfl) rfl)

/-- So does the entry as the code finds it. -/
theorem entryTurn_gathers {entry e : Buf} (he : Agree entry e) (h0 : e 0 ≠ 0) (hr : ¬ Reported e) {iter : DirIter}
    {l : LfnLocals} {g : Gathered} (h : g.HeldBy iter.lfnChecksum l) (info : FileInfo) :
    ∃ k l' info', entryTurn entry iter l info = .again { iter with lfnChecksum := k } l' info' ∧
      (g.look e).HeldBy k l' := by
  rw [← he 0 (by omega)] at h0
  rw [← he.reported] at hr
  rw [← he.look]
  exact ⟨_, _, _, entryTurn_pass h0 hr iter ⟨iter.lfnChecksum, l, info⟩,
      h.pass (d := ⟨iter.lfnChecksum, l, info⟩) entry⟩

/-! ## The name that is reported -/

/-- One row more. -/
theorem strncat_row {f buf : Buf} {t : List UInt8} (hf : StringAt f 0 (t.take 255)) (p : Nat) :
    StringAt (if buf p ≠ 0 then strncat f 256 buf p (255 - strlen f 0 256) else f) 0 ((t ++ cstring buf p 255).take 255) := by
  have hlen : (t.take 255).length = Min.min 255 t.length := List.length_take
  by_cases hp : buf p ≠ 0
  · have hnum : 255 - strlen f 0 256 = 255 - t.length := by
      rw [hf.strlen (by omega)]
      omega
    rw [if_pos hp, hnum, List.take_append, ← cstring_take buf p (Nat.sub_le 255 t.length)]
    exact strncat_spec hf (by omega) buf p _
  · have hnil : cstring buf p 255 = [] := if_pos (not_not.mp hp)
    rw [if_neg hp, hnil, List.append_nil]
    exact hf

/-- The loop over the rows, as far as row `n`. -/
def joinRows (l : LfnLocals) (filename : Buf) (n : Nat) : Buf :=
  (List.range n).foldl
    (fun (filename : Buf) (i : Nat) =>
      if l.buffer (i * 40) ≠ 0 then strncat filename 256 l.buffer (i * 40) (255 - strlen filename 0 256) else filename)
    (store8 filename 0 0)

theorem joinRows_succ (l : LfnLocals) (filename : Buf) (n : Nat) : joinRows l filename (n + 1) =
    if l.buffer (n * 40) ≠ 0 then
      strncat (joinRows l filename n) 256 l.buffer (n * 40) (255 - strlen (joinRows l filename n) 0 256)
    else joinRows l filename n := by
  rw [joinRows, List.range_succ, List.foldl_append]
  rfl

theorem joinRows_string (l : LfnLocals) (filename : Buf) (n : Nat) : StringAt (joinRows l filename n) 0
    (((List.range n).flatMap fun i => cstring l.buffer (i * 40) 255).take 255) := by
  induction n with
  | zero =>
    show store8 filename 0 0 0 = 0
    exact store8_same ..
  | succ n ih =>
    rw [List.range_succ, List.flatMap_append, List.flatMap_singleton, joinRows_succ]
    exact strncat_row ih (n * 40)

/-- The joined name is what the counted rows give. -/
theorem joinParts_spec (l : LfnLocals) (filename : Buf) : StringAt (joinParts l filename) 0
    (((List.range l.partsFound.toNat).flatMap fun i => cstring l.buffer (i * 40) 255).take 255) := by
  apply StringAt.nul (joinRows_string l filename _)
  rw [List.length_take]
  omega

theorem length_sfnChars (e : Buf) : (sfnChars e).length ≤ 12 := by
  have h8 : (((List.range 8).map e).takeWhile (· != 0x20)).length ≤ 8 := (List.takeWhile_prefix _).length_le
  have h3 : (((List.range 3).map fun j => e (8 + j)).takeWhile (· != 0x20)).length ≤ 3 :=
      (List.takeWhile_prefix _).length_le
  unfold sfnChars
  rw [List.length_append]
  by_cases h : (e 8 != 0x20) = true
  · rw [if_pos h, List.length_cons]
    omega
  · rw [if_neg h, List.length_nil]
    omega

/-- The string that a short entry gives. -/
theorem fatSfnToString_spec (e out : Buf) : cstring (fatSfnToString e out) 0 256 = shortName e := by
  have hstr := stringAt_putStr out (sfnChars e) (Nat.zero_le _)
  rw [List.drop_zero] at hstr
  have h1 : (shortName e).length ≤ (sfnChars e).length := (List.takeWhile_prefix _).length_le
  have h2 : (shortName e).length ≤ 12 := Nat.le_trans h1 (length_sfnChars e)
  exact hstr.cstring (Nat.lt_of_le_of_lt h2 (show 12 < 256 by decide))

theorem sfnEntry_name {entry e : Buf} (he : Agree entry e) {k : UInt8} {l : LfnLocals} {g : Gathered} (h : g.HeldBy k l)
    (info : FileInfo) : (sfnEntry entry k l info).name = g.nameOf e := by
  rw [FileInfo.name, sfnEntry, Gathered.nameOf, h.sum, he.checksum]
  by_cases hs : g.sum ≠ 0 ∧ fatSfnChecksum e = g.sum
  · have hj := joinParts_spec l info.filename
    simp only [h.text, h.count] at hj
    rw [if_pos hs, if_pos hs]
    apply hj.cstring
    rw [List.length_take]
    omega
  · rw [if_neg hs, if_neg hs, fatSfnToString_spec, shortName, he.sfnChars]
    rfl

end OpenGpos.Fat
