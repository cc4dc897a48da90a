/-
  OpenGpos.Lib.Crc — cyclic redundancy checks of any width, most significant bit first. `crcBits`
  takes the message bit by bit; `crcTable` takes it in groups of `k` bits, each one look-up. They
  agree (`crcTable_eq`) if each entry of the table is what `k` shifts make of its index.
-/
import Mathlib

namespace OpenGpos.Lib.Crc

variable {w k : Nat}

/-- One bit of the message: a shift, and the polynomial if what falls out differs from it. -/
def bitStep (poly c : BitVec w) (bit : Bool) : BitVec w := if c.msb ^^ bit then (c <<< 1) ^^^ poly else c <<< 1

def crcBits (poly init : BitVec w) (bits : List Bool) : BitVec w := bits.foldl (bitStep poly) init

/-- The bits of a group, the most significant one first. -/
def msbFirst (b : BitVec k) : List Bool := (List.range k).map b.getMsbD

/-- The top `k` bits of a register. -/
def top (k : Nat) (c : BitVec w) : BitVec k := (c >>> (w - k)).setWidth k

/-- A group on top of a register. -/
def onTop (w : Nat) (b : BitVec k) : BitVec w := b.setWidth w <<< (w - k)

def tableStep (table : BitVec k → BitVec w) (c : BitVec w) (b : BitVec k) : BitVec w := (c <<< k) ^^^ table (top k c ^^^ b)

def crcTable (table : BitVec k → BitVec w) (init : BitVec w) (groups : List (BitVec k)) : BitVec w :=
  groups.foldl (tableStep table) init

/-- What the entry for `i` must be. -/
def entry (poly : BitVec w) (i : BitVec k) : BitVec w := crcBits poly (onTop w i) (List.replicate k false)

/-! ## Bits from the top -/

theorem getMsbD_top (hk : k ≤ w) (c : BitVec w) {i : Nat} (hi : i < k) : (top k c).getMsbD i = c.getMsbD i := by
  unfold top
  rw [BitVec.getMsbD_setWidth, BitVec.getMsbD_ushiftRight]
  simp only [BitVec.getMsbD]
  grind

theorem getMsbD_onTop (hk : k ≤ w) (b : BitVec k) (i : Nat) : (onTop w b).getMsbD i = b.getMsbD i := by
  unfold onTop
  rw [BitVec.getMsbD_shiftLeft, BitVec.getMsbD_setWidth]
  simp only [BitVec.getMsbD]
  grind

theorem onTop_shiftLeft (hk : k ≤ w) (b : BitVec k) : onTop w b <<< k = 0#w := by
  apply BitVec.eq_of_getMsbD_eq
  intro i _
  rw [BitVec.getMsbD_shiftLeft, getMsbD_onTop hk]
  simp [BitVec.getMsbD]

/-! ## The step is linear -/

/-- What a bit that falls out adds. -/
def mask (poly : BitVec w) (bit : Bool) : BitVec w := if bit then poly else 0#w

theorem mask_xor (poly : BitVec w) (x y : Bool) : mask poly (x ^^ y) = mask poly x ^^^ mask poly y := by
  cases x <;> cases y <;> simp [mask]

theorem bitStep_eq (poly c : BitVec w) (bit : Bool) : bitStep poly c bit = (c <<< 1) ^^^ mask poly (c.msb ^^ bit) := by
  unfold bitStep mask
  split
  · rfl
  · rw [BitVec.xor_zero]

theorem bitStep_xor (poly c d : BitVec w) (x y : Bool) :
    bitStep poly (c ^^^ d) (x ^^ y) = bitStep poly c x ^^^ bitStep poly d y := by
  have hbits : ((c ^^^ d).msb ^^ (x ^^ y)) = ((c.msb ^^ x) ^^ (d.msb ^^ y)) := by
    rw [BitVec.msb_xor]
    cases c.msb <;> cases d.msb <;> cases x <;> cases y <;> rfl
  rw [bitStep_eq, bitStep_eq, bitStep_eq, hbits, mask_xor, BitVec.shiftLeft_xor_distrib]
  ac_rfl

/-- Two registers at once: the first takes the bits, the second none. -/
theorem crcBits_xor (poly : BitVec w) (bits : List Bool) : ∀ c d : BitVec w,
    crcBits poly (c ^^^ d) bits = crcBits poly c (List.replicate bits.length false) ^^^ crcBits poly d bits := by
  induction bits with
  | nil => exact fun c d => rfl
  | cons b bits ih =>
    intro c d
    have hstep := bitStep_xor poly c d false b
    rw [Bool.false_xor] at hstep
    show crcBits poly (bitStep poly (c ^^^ d) b) bits = _
    rw [hstep, ih]
    rfl

/-- A register whose top bits are those of the message is shifted out. -/
theorem crcBits_cancel (poly : BitVec w) (bits : List Bool) : ∀ c : BitVec w,
    (∀ i (h : i < bits.length), c.getMsbD i = bits[i]) → crcBits poly c bits = c <<< bits.length := by
  induction bits with
  | nil => exact fun c _ => (BitVec.shiftLeft_zero c).symm
  | cons b bits ih =>
    intro c hc
    have h0 : c.msb = b := hc 0 (Nat.zero_lt_succ _)
    have hstep : bitStep poly c b = c <<< 1 := by
      unfold bitStep
      rw [h0, Bool.xor_self]
      rfl
    show crcBits poly (bitStep poly c b) bits = _
    rw [hstep, ih]
    · rw [← BitVec.shiftLeft_add, List.length_cons, Nat.add_comm]
    · intro i hi
      rw [BitVec.getMsbD_shiftLeft]
      exact hc (i + 1) (Nat.succ_lt_succ hi)

/-! ## The table -/

theorem length_msbFirst (b : BitVec k) : (msbFirst b).length = k := by
  rw [msbFirst, List.length_map, List.length_range]

theorem crcBits_onTop (poly : BitVec w) (hk : k ≤ w) (b : BitVec k) : crcBits poly (onTop w b) (msbFirst b) = 0#w := by
  rw [crcBits_cancel, length_msbFirst, onTop_shiftLeft hk]
  intro i hi
  rw [getMsbD_onTop hk]
  simp [msbFirst]

/-- What is left of a register without its top bits is only shifted. -/
theorem crcBits_zeros (poly : BitVec w) (hk : k ≤ w) (c : BitVec w) :
    crcBits poly c (List.replicate k false) = (c <<< k) ^^^ entry poly (top k c) := by
  let low := c ^^^ onTop w (top k c)
  have hsplit : c = onTop w (top k c) ^^^ low := by
    show c = onTop w (top k c) ^^^ (c ^^^ onTop w (top k c))
    rw [BitVec.xor_comm c, ← BitVec.xor_assoc, BitVec.xor_self, BitVec.zero_xor]
  have hlow : crcBits poly low (List.replicate k false) = low <<< k := by
    rw [crcBits_cancel, List.length_replicate]
    intro i hi
    rw [List.length_replicate] at hi
    show (c ^^^ onTop w (top k c)).getMsbD i = _
    rw [BitVec.getMsbD_xor, getMsbD_onTop hk, getMsbD_top hk c hi, Bool.xor_self, List.getElem_replicate]
  have hshift : low <<< k = c <<< k := by
    show (c ^^^ onTop w (top k c)) <<< k = _
    rw [BitVec.shiftLeft_xor_distrib, onTop_shiftLeft hk, BitVec.xor_zero]
  have hlin := crcBits_xor poly (List.replicate k false) (onTop w (top k c)) low
  rw [List.length_replicate, ← hsplit, hlow, hshift] at hlin
  rw [hlin, BitVec.xor_comm]
  rfl

/-- A group of bits is one look-up. -/
theorem crcBits_group (poly : BitVec w) (hk : k ≤ w) (c : BitVec w) (b : BitVec k) :
    crcBits poly c (msbFirst b) = tableStep (entry poly) c b := by
  have hsplit : (c ^^^ onTop w b) ^^^ onTop w b = c := by
    rw [BitVec.xor_assoc, BitVec.xor_self, BitVec.xor_zero]
  have htop : top k (c ^^^ onTop w b) = top k c ^^^ b := by
    apply BitVec.eq_of_getMsbD_eq
    intro i hi
    rw [getMsbD_top hk _ hi, BitVec.getMsbD_xor, BitVec.getMsbD_xor, getMsbD_onTop hk, getMsbD_top hk c hi]
  have hshift : (c ^^^ onTop w b) <<< k = c <<< k := by
    rw [BitVec.shiftLeft_xor_distrib, onTop_shiftLeft hk, BitVec.xor_zero]
  calc crcBits poly c (msbFirst b)
      = crcBits poly ((c ^^^ onTop w b) ^^^ onTop w b) (msbFirst b) := by rw [hsplit]
    _ = crcBits poly (c ^^^ onTop w b) (List.replicate k false) ^^^ crcBits poly (onTop w b) (msbFirst b) := by
        rw [crcBits_xor, length_msbFirst]
    _ = crcBits poly (c ^^^ onTop w b) (List.replicate k false) := by rw [crcBits_onTop poly hk, BitVec.xor_zero]
    _ = tableStep (entry poly) c b := by rw [crcBits_zeros poly hk, htop, hshift]; rfl

/-- A table whose entries are right gives the check of every message. -/
theorem crcTable_eq (poly : BitVec w) (hk : k ≤ w) {table : BitVec k → BitVec w} (ht : ∀ i, table i = entry poly i)
    (groups : List (BitVec k)) : ∀ init : BitVec w, crcTable table init groups = crcBits poly init (groups.flatMap msbFirst) := by
  have htable : table = entry poly := funext ht
  subst htable
  induction groups with
  | nil => exact fun init => rfl
  | cons b groups ih =>
    intro init
    show crcTable (entry poly) (tableStep (entry poly) init b) groups = _
    rw [ih, ← crcBits_group poly hk, List.flatMap_cons]
    exact (List.foldl_append ..).symm

end OpenGpos.Lib.Crc
