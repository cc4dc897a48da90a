/-
  OpenGpos.Boot.CompCrc32 — the tool boot2/compCrc32.c and what its checksum is good for. A change
  confined to 32 consecutive bits of an image of any length changes the checksum
  (`burst_changes_checksum`); of the images the tool takes at all, so does a change of one or two bits
  anywhere, and the text in crc.c shows it (`crcFile_tells`). Behind its checksum, highest byte first,
  an image checks to 0, and behind nothing else (`residue_iff`).
-/
import OpenGpos.Boot.Crc32
import OpenGpos.Lib.Bursts

namespace OpenGpos.Boot

open OpenGpos.Lib.Crc

/-! ## The tool -/

def maxFileSize : Nat := 252

/-- What `main` finds: its arguments, the file if it opens, whether its end can be sought, whether
    reading it fails, and whether crc.c can be created. -/
structure Setting where
  argc : Nat
  file : Option (List UInt8)
  seeks : Bool
  readFails : Bool
  creates : Bool

def hexDigit (n : Nat) : Char := "0123456789ABCDEF".toList.getD n '0'

/-- `0x%02X`. -/
def hexByte (b : UInt8) : List Char := ['0', 'x', hexDigit (b.toNat / 16), hexDigit (b.toNat % 16)]

/-- The lowest byte comes first. -/
def checksumBytes (checksum : UInt32) : List UInt8 :=
  let byte3 := ((checksum >>> 24) &&& 0xFF).toUInt8
  let byte2 := ((checksum >>> 16) &&& 0xFF).toUInt8
  let byte1 := ((checksum >>> 8) &&& 0xFF).toUInt8
  let byte0 := (checksum &&& 0xFF).toUInt8
  [byte0, byte1, byte2, byte3]

/-- What `fprintf` puts into crc.c. -/
def crcSource (checksum : UInt32) : List Char :=
  "__attribute__((section(\".crc\"))) unsigned char crc[4] = \x7b".toList ++
    ", ".toList.intercalate ((checksumBytes checksum).map hexByte) ++ "\x7d;".toList

/-- The content of crc.c, or what the tool complains about. -/
def compCrc32 (s : Setting) : Except String (List Char) :=
  if s.argc ≠ 2 then .error "No file provided\n"
  else
    match s.file with
    | none => .error "Error opening file"
    | some content =>
      if !s.seeks then .error "Error getting file size"
      else if 252 < content.length then .error "file larger than 252 bytes\n"
      else if s.readFails then .error "Error reading file"
      else if !s.creates then .error "error opening output file"
      else .ok (crcSource (calculateCrc32 (content.take maxFileSize)))

/-! ## Reading crc.c -/

def hexValue (c : Char) : Nat := "0123456789ABCDEF".toList.idxOf c

/-- The two-digit hexadecimal literals of a text. -/
def literals : List Char → List UInt8
  | '0' :: 'x' :: h :: l :: rest => UInt8.ofNat (16 * hexValue h + hexValue l) :: literals rest
  | _ :: rest => literals rest
  | [] => []

theorem hexByte_value : ∀ b : Fin 256,
    UInt8.ofNat (16 * hexValue (hexDigit (b.val / 16)) + hexValue (hexDigit (b.val % 16))) = UInt8.ofNat b.val := by
  decide +kernel

theorem literals_hexByte (b : UInt8) (rest : List Char) : literals (hexByte b ++ rest) = b :: literals rest := by
  have h := hexByte_value ⟨b.toNat, b.toNat_lt⟩
  rw [UInt8.ofNat_toNat] at h
  show UInt8.ofNat _ :: literals rest = _
  rw [h]

theorem literals_crcSource (checksum : UInt32) : literals (crcSource checksum) = checksumBytes checksum := by
  obtain ⟨b0, b1, b2, b3, hb⟩ : ∃ b0 b1 b2 b3, checksumBytes checksum = [b0, b1, b2, b3] := ⟨_, _, _, _, rfl⟩
  unfold crcSource
  rw [hb]
  show literals (hexByte b0 ++ (", ".toList ++ (hexByte b1 ++ (", ".toList ++ (hexByte b2 ++ (", ".toList ++
    (hexByte b3 ++ "\x7d;".toList))))))) = _
  rw [literals_hexByte]
  show _ :: literals (hexByte b1 ++ _) = _
  rw [literals_hexByte]
  show _ :: _ :: literals (hexByte b2 ++ _) = _
  rw [literals_hexByte]
  show _ :: _ :: _ :: literals (hexByte b3 ++ _) = _
  rw [literals_hexByte]
  rfl

theorem checksumBytes_inj {a b : UInt32} (h : checksumBytes a = checksumBytes b) : a = b := by
  simp only [checksumBytes, List.cons.injEq, and_true] at h
  obtain ⟨h0, h1, h2, h3⟩ := h
  have e0 := congrArg UInt8.toNat h0
  have e1 := congrArg UInt8.toNat h1
  have e2 := congrArg UInt8.toNat h2
  have e3 := congrArg UInt8.toNat h3
  have mask : ∀ n : Nat, n &&& 255 = n % 256 := fun n => Nat.and_two_pow_sub_one_eq_mod n 8
  simp [mask, Nat.shiftRight_eq_div_pow] at e0 e1 e2 e3
  have ha := a.toNat_lt
  have hb := b.toNat_lt
  rw [← UInt32.toNat_inj]
  omega

/-! ## Changes that the checksum shows -/

/-- The bits of a message in the order the check takes them. -/
def bits (data : List UInt8) : List Bool := data.flatMap fun b => msbFirst b.toBitVec

/-- Two messages of one length that agree but for `n` consecutive bits. -/
def Burst (n : Nat) (a b : List UInt8) : Prop :=
  a.length = b.length ∧ ∃ p, ∀ i, i < p ∨ p + n ≤ i → (bits a)[i]? = (bits b)[i]?

/-- In how many bits two messages differ. -/
def flips (a b : List UInt8) : Nat := (List.zipWith (· ^^ ·) (bits a) (bits b)).count true

theorem length_bits (data : List UInt8) : (bits data).length = 8 * data.length := by
  induction data with
  | nil => rfl
  | cons b data ih =>
    show (msbFirst b.toBitVec ++ bits data).length = _
    rw [List.length_append, length_msbFirst, ih, List.length_cons]
    omega

theorem msbFirst_inj {k : Nat} {a b : BitVec k} (h : msbFirst a = msbFirst b) : a = b := by
  apply BitVec.eq_of_getMsbD_eq
  intro i hi
  have hget := congrArg (fun l => l[i]?) h
  simpa [msbFirst, hi] using hget

theorem bits_inj : ∀ {a b : List UInt8}, a.length = b.length → bits a = bits b → a = b
  | [], [], _, _ => rfl
  | x :: a, y :: b, hl, h => by
    obtain ⟨hx, hr⟩ := List.append_inj (show msbFirst x.toBitVec ++ bits a = msbFirst y.toBitVec ++ bits b from h)
      (by rw [length_msbFirst, length_msbFirst])
    rw [UInt8.toBitVec_inj.mp (msbFirst_inj hx), bits_inj (Nat.succ.inj hl) hr]

theorem foldl_crc32Turn_bits (data : List UInt8) (crc : UInt32) : (data.foldl crc32Turn crc).toBitVec =
    crcBits crc32Polynomial.toBitVec crc.toBitVec (bits data) := by
  rw [foldl_crc32Turn, crcTable_eq _ (by decide) crc32Table_entry, List.flatMap_map]
  rfl

theorem crc32Polynomial_odd : crc32Polynomial.toBitVec.getLsbD 0 = true := by decide

/-- Two bits of an image that the tool takes are less than 2016 bits apart. -/
theorem crc32Polynomial_period : PeriodFrom crc32Polynomial.toBitVec 2016 := periodFrom_of_avoids (by decide +kernel)

theorem bits_of_burst {a b : List UInt8} {p : Nat} (h : ∀ i, i < p ∨ p + 32 ≤ i → (bits a)[i]? = (bits b)[i]?) :
    (bits a).take p = (bits b).take p ∧ (bits a).drop (p + 32) = (bits b).drop (p + 32) := by
  constructor
  · apply List.ext_getElem?
    intro i
    rw [List.getElem?_take, List.getElem?_take]
    split
    · next hi => exact h i (.inl hi)
    · rfl
  · apply List.ext_getElem?
    intro i
    rw [List.getElem?_drop, List.getElem?_drop]
    exact h _ (.inr (Nat.le_add_right ..))

theorem split_bits (l : List Bool) (p : Nat) : l = l.take p ++ ((l.drop p).take 32 ++ l.drop (p + 32)) := by
  rw [← List.drop_drop, List.take_append_drop, List.take_append_drop]

theorem calculateCrc32_bits (data : List UInt8) :
    (calculateCrc32 data).toBitVec = crcBits crc32Polynomial.toBitVec 0xFFFFFFFF#32 (bits data) :=
  foldl_crc32Turn_bits data 0xFFFFFFFF

theorem eq_of_burst {a b : List UInt8} (h : Burst 32 a b) (hcrc : calculateCrc32 a = calculateCrc32 b) : a = b := by
  obtain ⟨hl, p, hp⟩ := h
  obtain ⟨hpre, hpost⟩ := bits_of_burst hp
  have hbits := congrArg UInt32.toBitVec hcrc
  rw [calculateCrc32_bits, calculateCrc32_bits, split_bits (bits a) p, split_bits (bits b) p, hpre, hpost] at hbits
  have hlen : (((bits a).drop p).take 32).length = (((bits b).drop p).take 32).length := by
    simp only [List.length_take, List.length_drop, length_bits, hl]
  have hmid := crcBits_burst crc32Polynomial_odd _ _ _ hlen (List.length_take_le ..) hbits
  refine bits_inj hl ?_
  rw [split_bits (bits a) p, split_bits (bits b) p, hpre, hpost, hmid]

/-- Messages that agree but for 32 consecutive bits have one checksum only if they are equal. -/
theorem burst_changes_checksum {a b : List UInt8} (h : Burst 32 a b) : calculateCrc32 a = calculateCrc32 b ↔ a = b :=
  ⟨eq_of_burst h, congrArg _⟩

/-- A byte of "123456789" turned over. -/
theorem burst_changes_checksum_digits :
    calculateCrc32 [0x31, 0x32, 0x33, 0x34] ≠ calculateCrc32 [0x31, 0xCD, 0x33, 0x34] := by
  have hburst : Burst 32 [0x31, 0x32, 0x33, 0x34] [0x31, 0xCD, 0x33, 0x34] := by
    refine ⟨rfl, 8, fun i hi => ?_⟩
    rcases hi with hi | hi
    · have : ∀ i < 8, (bits [0x31, 0x32, 0x33, 0x34])[i]? = (bits [0x31, 0xCD, 0x33, 0x34])[i]? := by decide
      exact this i hi
    · rw [List.getElem?_eq_none (by rw [length_bits]; exact Nat.le_trans (by decide) hi),
        List.getElem?_eq_none (by rw [length_bits]; exact Nat.le_trans (by decide) hi)]
  exact fun h => absurd ((burst_changes_checksum hburst).mp h) (by decide)

/-! ## What crc.c tells -/

theorem compCrc32_ok {s : Setting} {content : List UInt8} {text : List Char} (hf : s.file = some content)
    (h : compCrc32 s = .ok text) : content.length ≤ maxFileSize ∧ text = crcSource (calculateCrc32 content) := by
  unfold compCrc32 at h
  rw [hf] at h
  by_cases hargc : s.argc ≠ 2
  · rw [if_pos hargc] at h
    cases h
  rw [if_neg hargc] at h
  dsimp only at h
  repeat' split at h
  all_goals cases h
  rename_i hlen _ _
  have hle : content.length ≤ maxFileSize := Nat.not_lt.mp hlen
  exact ⟨hle, by rw [List.take_of_length_le hle]⟩

theorem flips_eq_zero {a b : List UInt8} (hl : a.length = b.length) (h : flips a b = 0) : a = b := by
  refine bits_inj hl (List.ext_getElem (by rw [length_bits, length_bits, hl]) fun i hi hi' => ?_)
  have hz := eq_replicate_of_count_zero h
  have hlen : i < (List.zipWith (· ^^ ·) (bits a) (bits b)).length := by
    rw [List.length_zipWith]
    omega
  have hget := List.getElem_of_eq hz hlen
  rw [List.getElem_zipWith, List.getElem_replicate] at hget
  simpa using hget

/-- Of two images of one length that the tool takes and that agree but for 32 consecutive bits or
    for two bits anywhere, crc.c is the same only if they are the same. -/
theorem crcFile_tells {s s' : Setting} {a b : List UInt8} {text text' : List Char} (hs : s.file = some a)
    (hs' : s'.file = some b) (h : compCrc32 s = .ok text) (h' : compCrc32 s' = .ok text') (hl : a.length = b.length)
    (hclose : Burst 32 a b ∨ flips a b ≤ 2) : text = text' ↔ a = b := by
  obtain ⟨hlen, rfl⟩ := compCrc32_ok hs h
  obtain ⟨-, rfl⟩ := compCrc32_ok hs' h'
  refine ⟨fun htext => ?_, fun hab => by rw [hab]⟩
  have hlit := congrArg literals htext
  rw [literals_crcSource, literals_crcSource] at hlit
  have hcrc := checksumBytes_inj hlit
  rcases hclose with hburst | htwo
  · exact eq_of_burst hburst hcrc
  · have hbits := congrArg UInt32.toBitVec hcrc
    rw [calculateCrc32_bits, calculateCrc32_bits] at hbits
    refine flips_eq_zero hl (crcBits_two crc32Polynomial_odd crc32Polynomial_period _ ?_ ?_ htwo hbits)
    · rw [length_bits, length_bits, hl]
    · rw [length_bits]
      unfold maxFileSize at hlen
      omega

/-- Images of two bytes, two bits apart. -/
def twoBytes (b : UInt8) : Setting := ⟨2, some [0x00, b], true, false, true⟩

theorem crcFile_tells_two : ∃ text text', compCrc32 (twoBytes 0x00) = .ok text ∧ compCrc32 (twoBytes 0x81) = .ok text' ∧
    text ≠ text' := by
  refine ⟨_, _, rfl, rfl, fun h => ?_⟩
  have hsame := (crcFile_tells (show (twoBytes 0x00).file = some _ from rfl)
      (show (twoBytes 0x81).file = some _ from rfl)
    rfl rfl rfl (.inr (by decide))).mp h
  exact absurd hsame (by decide)

/-! ## The residue -/

theorem low_byte (x : UInt32) : (x &&& 0xFF).toUInt8.toBitVec = x.toBitVec.setWidth 8 := by
  have hall : x.toBitVec.setWidth 8 &&& 255#8 = x.toBitVec.setWidth 8 := BitVec.and_allOnes
  simpa using hall

theorem bits_checksumBytes (checksum : UInt32) : bits
    (checksumBytes checksum).reverse = msbFirst checksum.toBitVec := by
  show msbFirst ((checksum >>> 24) &&& 0xFF).toUInt8.toBitVec ++ (msbFirst ((checksum >>> 16) &&& 0xFF).toUInt8.toBitVec ++
    (msbFirst ((checksum >>> 8) &&& 0xFF).toUInt8.toBitVec ++ (msbFirst (checksum &&& 0xFF).toUInt8.toBitVec ++ []))) =
    _
  rw [low_byte, low_byte, low_byte, low_byte]
  simp [msbFirst, List.range_succ, BitVec.getMsbD]

/-- Four bytes behind a message take the register to 0 exactly if they are its checksum, the
    highest byte first. -/
theorem residue_iff (data : List UInt8) {tail : List UInt8} (ht : tail.length = 4) :
    calculateCrc32 (data ++ tail) = 0 ↔ tail = (checksumBytes (calculateCrc32 data)).reverse := by
  have happ : calculateCrc32 (data ++ tail) = tail.foldl crc32Turn (calculateCrc32 data) := List.foldl_append ..
  have hself : (checksumBytes (calculateCrc32 data)).reverse.foldl crc32Turn (calculateCrc32 data) = 0 := by
    apply UInt32.toBitVec_inj.mp
    rw [foldl_crc32Turn_bits, bits_checksumBytes, crcBits_self]
    rfl
  constructor
  · intro h
    rw [happ, ← hself] at h
    have hbits := congrArg UInt32.toBitVec h
    rw [foldl_crc32Turn_bits, foldl_crc32Turn_bits] at hbits
    have hlen : (bits tail).length = (bits (checksumBytes (calculateCrc32 data)).reverse).length := by
      rw [length_bits, length_bits, ht]
      rfl
    have hle : (bits tail).length ≤ 32 := by rw [length_bits, ht]
    refine bits_inj ht (crcBits_burst crc32Polynomial_odd (calculateCrc32 data).toBitVec [] [] hlen hle ?_)
    rw [List.nil_append, List.append_nil, List.nil_append, List.append_nil]
    exact hbits
  · rintro rfl
    rw [happ, hself]

/-- "123456789" has the checksum 0x0376E6E7. -/
theorem residue_iff_digits : let digits : List UInt8 := [0x31, 0x32, 0x33, 0x34, 0x35, 0x36, 0x37, 0x38, 0x39]
    calculateCrc32 (digits ++ [0x03, 0x76, 0xE6, 0xE7]) = 0 ∧ calculateCrc32 (digits ++ [0xE7, 0xE6, 0x76, 0x03]) ≠ 0 :=
      by
  intro digits
  have hcrc : (checksumBytes (calculateCrc32 digits)).reverse = [0x03, 0x76, 0xE6, 0xE7] := by decide +kernel
  refine ⟨(residue_iff digits rfl).mpr hcrc.symm, fun h => ?_⟩
  have htail := ((residue_iff digits rfl).mp h).trans hcrc
  exact absurd htail (by decide)

end OpenGpos.Boot
