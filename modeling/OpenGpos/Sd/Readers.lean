/-
  OpenGpos.Sd.Readers — the two readers of a data block on any stream of bytes. They wait for the
  start token in the same loop, which takes a token on its last poll for a timeout
  (`token_wait_iff`). From there on a partial read clocks the bytes of a whole one and keeps a slice
  of them (`partial_slice`).
-/
import OpenGpos.Lib.Tape
import OpenGpos.Sd.Driver

namespace OpenGpos.Sd

open OpenGpos.Lib.Fifo OpenGpos.Lib.Tape

/-! ## The start token -/

/-- The first byte other than 0xFF among `t` bytes from place `p` on is the start token. -/
def TokenWithin (tape : Nat → UInt8) (p t : Nat) : Prop := ∃ j < t, tape (p + j) = 0xFE ∧ ∀ m < j, tape (p + m) = 0xFF

section
variable {tape : Nat → UInt8}

/-- The loop stops at the first byte that is not 0xFF, or with its last poll. -/
theorem readToken_stops (t : Nat) : ∀ p : Nat, 0 < t → ∃ j < t, (∀ m < j, tape (p + m) = 0xFF) ∧
    (tape (p + j) ≠ 0xFF ∨ j + 1 = t) ∧ (playProg tape (readToken t) p).value = (tape (p + j), t - 1 - j) ∧
    (playProg tape (readToken t) p).place = p + j + 1 ∧
    (playProg tape (readToken t) p).events = List.replicate (j + 1) 0xFF := by
  induction t with
  | zero => intro p h0; omega
  | succ t ih =>
    intro p _
    simp only [readToken, spiReadByte, spiSendByte, Prog.receive_bind, Prog.send_bind, playProg_pop, playProg_push]
    by_cases hon : tape p = 0xFF ∧ 0 < t
    · -- the next poll
      obtain ⟨j, hj, hff, hstop, hv, hp, he⟩ := ih (p + 1) hon.2
      rw [if_pos hon, hv, hp, he]
      refine ⟨j + 1, by omega, fun m hm => ?_, ?_, ?_, by omega, List.replicate_succ.symm⟩
      · cases m with
        | zero => exact hon.1
        | succ m =>
          rw [show p + (m + 1) = p + 1 + m by omega]
          exact hff m (by omega)
      · rw [show p + (j + 1) = p + 1 + j by omega]
        exact hstop.imp_right fun h => by omega
      · rw [show p + (j + 1) = p + 1 + j by omega, show t + 1 - 1 - (j + 1) = t - 1 - j by omega]
    · rw [if_neg hon]
      refine ⟨0, Nat.zero_lt_succ t, fun m hm => by omega, ?_, rfl, rfl, rfl⟩
      by_cases h : tape p = 0xFF
      · have ht : ¬ 0 < t := fun ht => hon ⟨h, ht⟩
        exact Or.inr (by omega)
      · exact Or.inl h

/-- What the code takes for a start token in time: not on the last poll. -/
theorem readToken_accepts {t p : Nat} (ht : 0 < t) :
    ((playProg tape (readToken t) p).value.2 ≠ 0 ∧ (playProg tape (readToken t) p).value.1 = 0xFE) ↔
      ∃ j, j + 1 < t ∧ tape (p + j) = 0xFE ∧ ∀ m < j, tape (p + m) = 0xFF := by
  obtain ⟨j, hj, hff, hstop, hv, -⟩ := readToken_stops t p ht
  rw [hv]
  constructor
  · rintro ⟨hleft, htoken⟩
    exact ⟨j, by omega, htoken, hff⟩
  · rintro ⟨j', hj', htoken, hff'⟩
    -- both are the first byte other than 0xFF
    have he : j' = j := by
      rcases Nat.lt_trichotomy j' j with h | h | h
      · rw [hff j' h] at htoken
        exact absurd htoken (by decide)
      · exact h
      · rcases hstop with h' | h'
        · exact absurd (hff' j h) h'
        · omega
    subst he
    exact ⟨by omega, htoken⟩

/-- A reader succeeds exactly with the token. -/
theorem readDataBlock_accepts (t p : Nat) : (playProg tape (readDataBlock t) p).value.1 = true ↔
    (playProg tape (readToken t) p).value.2 ≠ 0 ∧ (playProg tape (readToken t) p).value.1 = 0xFE := by
  rw [readDataBlock, playProg_bind_value]
  generalize playProg tape (readToken t) p = r
  obtain ⟨⟨token, timeout⟩, place, events⟩ := r
  dsimp only
  by_cases h0 : timeout = 0
  · simp [h0]
  by_cases hf : token = 0xFE
  · rw [if_neg h0, if_neg (not_not.mpr hf), playProg_bind_value, playProg_bind_value]
    exact iff_of_true rfl ⟨h0, hf⟩
  · simp [h0, hf]

theorem readDataBlockPartial_accepts (startOffset count : UInt16) (t p : Nat) :
    (playProg tape (readDataBlockPartial startOffset count t) p).value.1 = true ↔
    (playProg tape (readToken t) p).value.2 ≠ 0 ∧ (playProg tape (readToken t) p).value.1 = 0xFE := by
  rw [readDataBlockPartial, playProg_bind_value]
  generalize playProg tape (readToken t) p = r
  obtain ⟨⟨token, timeout⟩, place, events⟩ := r
  dsimp only
  by_cases h : timeout = 0 ∨ token ≠ 0xFE
  · have h' : ¬ (timeout ≠ 0 ∧ token = 0xFE) := by
      rw [not_and_or, not_not]
      exact h
    simp [h, h']
  · have h' : timeout ≠ 0 ∧ token = 0xFE := by simpa [not_or] using h
    rw [if_neg h, playProg_bind_value, playProg_bind_value, playProg_bind_value]
    exact iff_of_true rfl h'

/-- The wait of both readers takes a token that comes in time, unless it comes with the last poll. -/
theorem token_wait_iff (tape : Nat → UInt8) (p : Nat) {t : Nat} (ht : 1 ≤ t) (startOffset count : UInt16) :
    (((playProg tape (readDataBlock t) p).value.1 = true ↔ TokenWithin tape p t) ∧
      ((playProg tape (readDataBlockPartial startOffset count t) p).value.1 = true ↔ TokenWithin tape p t)) ↔
    ¬ (tape (p + (t - 1)) = 0xFE ∧ ∀ m < t - 1, tape (p + m) = 0xFF) := by
  rw [readDataBlock_accepts, readDataBlockPartial_accepts, and_self, readToken_accepts ht]
  constructor
  · rintro h ⟨hlast, hff⟩
    obtain ⟨j, hj, htoken, -⟩ := h.mpr ⟨t - 1, by omega, hlast, hff⟩
    rw [hff j (by omega)] at htoken
    exact absurd htoken (by decide)
  · intro h
    constructor
    · rintro ⟨j, hj, htoken, hff⟩
      exact ⟨j, by omega, htoken, hff⟩
    · rintro ⟨j, hj, htoken, hff⟩
      refine ⟨j, ?_, htoken, hff⟩
      by_contra hj'
      obtain rfl : j = t - 1 := by omega
      exact h ⟨htoken, hff⟩

/-- A token on the second of three polls. -/
theorem token_wait_second : let tape : Nat → UInt8 := fun i => if i = 1 then 0xFE else 0xFF
    (((playProg tape (readDataBlock 3) 0).value.1 = true ↔ TokenWithin tape 0 3) ∧
      ((playProg tape (readDataBlockPartial 446 66 3) 0).value.1 = true ↔ TokenWithin tape 0 3)) :=
  (token_wait_iff _ 0 (by decide) 446 66).mpr (by decide)

/-- A token on the third of three polls is a timeout. -/
theorem token_last_poll_lost : let tape : Nat → UInt8 := fun i => if i = 2 then 0xFE else 0xFF
    TokenWithin tape 0 3 ∧ (playProg tape (readDataBlock 3) 0).value.1 = false ∧
      (playProg tape (readDataBlockPartial 446 66 3) 0).value.1 = false := by
  refine ⟨⟨2, by decide, rfl, by decide⟩, rfl, rfl⟩

end

/-! ## Slices -/

theorem bind_done {α : Type} (p : SpiProg α) : (p >>= fun a => .done a) = p := by
  induction p with
  | done a => rfl
  | push b k ih => exact congrArg (Prog.push b) ih
  | pop k ih => exact congrArg Prog.pop (funext ih)

/-- What comes behind `n` bytes may count on there being `n`. -/
theorem readBytes_congr {α : Type} (n : Nat) : ∀ {f g : List UInt8 → SpiProg α}, (∀ l, l.length = n → f l = g l) →
    (readBytes n >>= f) = readBytes n >>= g := by
  induction n with
  | zero => exact fun h => h [] rfl
  | succ n ih =>
    intro f g h
    simp only [readBytes, spiReadByte, spiSendByte, Prog.receive_bind, Prog.send_bind, Prog.bind_assoc, Prog.push_bind,
      Prog.pop_bind, Prog.pure_eq, Prog.done_bind]
    refine congrArg Prog.pop (funext fun b => congrArg (Prog.push 0xFF) (ih fun l hl => h (b :: l) ?_))
    rw [List.length_cons, hl]

theorem readBytes_add (m n : Nat) :
    readBytes (m + n) = readBytes m >>= fun a => readBytes n >>= fun b => (.done (a ++ b) : SpiProg (List UInt8)) := by
  induction m with
  | zero =>
    rw [Nat.zero_add]
    exact (bind_done _).symm
  | succ m ih =>
    rw [Nat.succ_add, readBytes, ih]
    simp only [readBytes, spiReadByte, spiSendByte, Prog.receive_bind, Prog.send_bind, Prog.bind_assoc, Prog.push_bind,
      Prog.pop_bind, Prog.pure_eq, Prog.done_bind, List.cons_append]

/-- The part of a block that a partial read is for; of a block that was not read, nothing. -/
def slice (offset length : UInt16) (r : Bool × List UInt8) : Bool × List UInt8 :=
  (r.1, (r.2.drop offset.toNat).take length.toNat)

theorem bytesToDiscard_toNat {startOffset count : UInt16} (h : startOffset.toNat + count.toNat ≤ 512) :
    (bytesToDiscard startOffset count).toNat = 512 - startOffset.toNat - count.toNat + 2 := by
  unfold bytesToDiscard
  have h512 : (512 : UInt16).toNat = 512 := rfl
  have h2 : (2 : UInt16).toNat = 2 := rfl
  rw [UInt16.toNat_add, UInt16.toNat_sub_of_le _ _ ?_, UInt16.toNat_sub_of_le _ _ ?_, h512, h2]
  · omega
  · rw [UInt16.le_iff_toNat_le, h512]
    omega
  · rw [UInt16.le_iff_toNat_le, UInt16.toNat_sub_of_le _ _ (by rw [UInt16.le_iff_toNat_le, h512]; omega), h512]
    omega

/-- The bytes of a block and its CRC, as a partial read clocks them. -/
theorem readBytes_slice {off len : Nat} (h : off + len ≤ 512) {α : Type} (f : List UInt8 → SpiProg α) :
    (readBytes 512 >>= fun buffer => readBytes 2 >>= fun _ => f ((buffer.drop off).take len)) =
      readBytes off >>= fun _ => readBytes len >>= fun buffer => readBytes (512 - off - len + 2) >>= fun _ =>
        f buffer := by
  have h512 : 512 = off + (len + (512 - off - len)) := by omega
  rw [show readBytes 512 = readBytes (off + (len + (512 - off - len))) from congrArg readBytes h512, readBytes_add,
    readBytes_add, readBytes_add]
  simp only [Prog.bind_assoc, Prog.done_bind]
  refine readBytes_congr off fun a ha => readBytes_congr len fun b hb => ?_
  have hslice : ∀ c, ((a ++ (b ++ c)).drop off).take len = b := by
    intro c
    rw [← ha, List.drop_left, ← hb, List.take_left]
  simp only [hslice]

/-- A partial read is a whole read of which a slice is kept. -/
theorem readDataBlockPartial_eq {startOffset count : UInt16} (h : startOffset.toNat + count.toNat ≤ 512)
    (timeoutVal : Nat) :
    readDataBlockPartial startOffset count timeoutVal =
      readDataBlock timeoutVal >>= fun r => .done (slice startOffset count r) := by
  have hempty : slice startOffset count (false, []) = (false, []) := by simp [slice]
  unfold readDataBlockPartial readDataBlock
  rw [Prog.bind_assoc]
  refine congrArg (readToken timeoutVal >>= ·) (funext fun r => ?_)
  by_cases h0 : r.2 = 0
  · simp [h0, hempty]
  by_cases hf : r.1 = 0xFE
  · have hs := readBytes_slice h fun buffer => (.done (true, buffer) : SpiProg (Bool × List UInt8))
    simp only [h0, hf, ne_eq, not_true_eq_false, or_self, if_false, bytesToDiscard_toNat h, Prog.pure_eq,
      Prog.bind_assoc,
      Prog.done_bind, sdBlockSize]
    exact hs.symm
  · simp [h0, hf, hempty]

/-- The same of the two operations, bytes sent and all. -/
theorem sdReadPartialBlock_eq {offset length : UInt16} (h : offset.toNat + length.toNat ≤ 512) (a : UInt32) :
    sdReadPartialBlock a offset length = sdReadBlock a >>= fun r => .done (slice offset length r) := by
  have hempty : slice offset length (false, []) = (false, []) := by simp [slice]
  unfold sdReadPartialBlock sdReadBlock
  rw [Prog.bind_assoc]
  refine congrArg (sdSendCommand 0x51 a 0x01 >>= ·) (funext fun _ => ?_)
  rw [Prog.bind_assoc]
  refine congrArg (readR1Response 0xFF >>= ·) (funext fun r1 => ?_)
  by_cases h0 : r1 = 0x00
  · simp [h0, readDataBlockPartial_eq h, Prog.bind_assoc, deassertCS, spiSendByte]
  · simp [h0, hempty, deassertCS, spiSendByte]

section
variable {tape : Nat → UInt8}

/-- The bytes read are those of the tape. -/
theorem value_readBytes (n : Nat) : ∀ i : Nat,
    (playProg tape (readBytes n) i).value = (List.range n).map fun k => tape (i + k) := by
  induction n with
  | zero => exact fun i => rfl
  | succ n ih =>
    intro i
    simp only [readBytes, spiReadByte, spiSendByte, Prog.receive_bind, Prog.send_bind, Prog.pure_eq, playProg_pop,
      playProg_push, playProg_bind, playProg_done]
    rw [ih, List.range_succ_eq_map, List.map_cons, List.map_map]
    exact congrArg (tape i :: ·) (List.map_congr_left fun k _ => congrArg tape (Nat.succ_add_eq_add_succ i k))

theorem length_readBytes (n i : Nat) : (playProg tape (readBytes n) i).value.length = n := by
  rw [value_readBytes, List.length_map, List.length_range]

/-- The block behind a start token in time. -/
theorem readDataBlock_bytes {t p q left : Nat} {sent : List UInt8}
    (h : playProg tape (readToken t) p = ⟨(0xFE, left), q, sent⟩) (h0 : left ≠ 0) :
    (playProg tape (readDataBlock t) p).value = (true, (List.range sdBlockSize).map fun k => tape (q + k)) := by
  rw [readDataBlock, playProg_bind_value, h]
  dsimp only
  rw [if_neg h0, if_neg (not_not.mpr rfl), playProg_bind_value, playProg_bind_value, value_readBytes]
  rfl

/-- The block that follows a good answer. -/
theorem sdReadBlock_bytes (a : UInt32) {i p q left : Nat} {polls sent : List UInt8}
    (hr1 : playProg tape (readR1Response 0xFF) i = ⟨0, p, polls⟩)
    (htoken : playProg tape (readToken 0xFFFF) p = ⟨(0xFE, left), q, sent⟩) (h0 : left ≠ 0) :
    (playProg tape (sdReadBlock a) i).value = (true, (List.range sdBlockSize).map fun k => tape (q + k)) := by
  have hcommand : (playProg tape (sdSendCommand 0x51 a 0x01) i).place = i := rfl
  rw [sdReadBlock, playProg_bind_value, hcommand, playProg_bind_value, hr1]
  dsimp only
  rw [if_neg (not_not.mpr rfl), playProg_bind_value, playProg_bind_value, Prog.pure_eq, playProg_done]
  exact readDataBlock_bytes htoken h0

/-- A block is read whole or not at all. -/
def WholeOrNone (r : Bool × List UInt8) : Prop := (r.1 = true → r.2.length = 512) ∧ (r.1 = false → r.2 = [])

theorem wholeOrNone_none : WholeOrNone (false, []) := ⟨fun h => Bool.noConfusion h, fun _ => rfl⟩

theorem wholeOrNone_whole {bytes : List UInt8} (h : bytes.length = sdBlockSize) : WholeOrNone (true, bytes) :=
  ⟨fun _ => h, fun h => Bool.noConfusion h⟩

theorem readDataBlock_whole (t i : Nat) : WholeOrNone (playProg tape (readDataBlock t) i).value := by
  rw [readDataBlock, playProg_bind_value]
  generalize playProg tape (readToken t) i = r
  obtain ⟨⟨token, timeout⟩, place, events⟩ := r
  dsimp only
  by_cases h0 : timeout = 0
  · simpa [h0] using wholeOrNone_none
  by_cases hf : token = 0xFE
  · rw [if_neg h0, if_neg (not_not.mpr hf), playProg_bind_value, playProg_bind_value, Prog.pure_eq, playProg_done]
    exact wholeOrNone_whole (length_readBytes sdBlockSize place)
  · simpa [h0, hf] using wholeOrNone_none

theorem sdReadBlock_whole (a : UInt32) (i : Nat) : WholeOrNone (playProg tape (sdReadBlock a) i).value := by
  rw [sdReadBlock, playProg_bind]
  generalize playProg tape (sdSendCommand 0x51 a 0x01) i = r
  dsimp only
  rw [playProg_bind]
  generalize playProg tape (readR1Response 0xFF) r.place = r1
  by_cases h0 : r1.value = 0x00
  · simpa [h0, deassertCS, spiSendByte, playProg_bind] using readDataBlock_whole 0xFFFF r1.place
  · simpa [h0, deassertCS, spiSendByte] using wholeOrNone_none

/-- A buffer once these bytes were written to the start of it. -/
def writtenTo (buf : Nat → UInt8) (bytes : List UInt8) : Nat → UInt8 := fun q => bytes.getD q (buf q)

/-- On every stream of bytes a partial read sends what the whole read sends, takes as many bytes and
    has the same outcome; then its buffer holds the slice of the block, and is not touched elsewhere. -/
theorem partial_slice (tape : Nat → UInt8) (i : Nat) (a : UInt32) (buf : Nat → UInt8) {offset length : UInt16}
    (h : offset.toNat + length.toNat ≤ 512) :
    let full := playProg tape (sdReadBlock a) i
    let part := playProg tape (sdReadPartialBlock a offset length) i
    part.value.1 = full.value.1 ∧ part.place = full.place ∧ part.events = full.events ∧
      (full.value.1 = true → full.value.2.length = 512) ∧
      ∀ q, writtenTo buf part.value.2 q =
        if full.value.1 = true ∧ q < length.toNat then full.value.2.getD (offset.toNat + q) 0 else buf q := by
  intro full part
  have hwhole : WholeOrNone full.value := sdReadBlock_whole a i
  have hpart : part = ⟨slice offset length full.value, full.place, full.events⟩ := by
    show playProg tape (sdReadPartialBlock a offset length) i = _
    rw [sdReadPartialBlock_eq h, playProg_bind]
    simp [full]
  rw [hpart]
  refine ⟨rfl, rfl, rfl, hwhole.1, fun q => ?_⟩
  show ((full.value.2.drop offset.toNat).take length.toNat).getD q (buf q) = _
  rw [List.getD_eq_getElem?_getD, List.getElem?_take, List.getElem?_drop]
  cases hr : full.value.1 with
  | false =>
    have hn : ¬ (false = true ∧ q < length.toNat) := fun hc => Bool.noConfusion hc.1
    rw [hwhole.2 hr, if_neg hn]
    split <;> simp
  | true =>
    have hlen := hwhole.1 hr
    by_cases hq : q < length.toNat
    · rw [if_pos hq, if_pos ⟨rfl, hq⟩, List.getD_eq_getElem?_getD,
        List.getElem?_eq_getElem (show offset.toNat + q < full.value.2.length by omega)]
      rfl
    · rw [if_neg hq, if_neg fun hc => hq hc.2]
      rfl

/-- The end of the first sector, off a card that answers at once. -/
theorem partial_slice_mbr :
    let tape : Nat → UInt8 := fun i => if i = 0 then 0x00 else if i = 1 then 0xFE else UInt8.ofNat i
    let full := playProg tape (sdReadBlock 0) 0
    let part := playProg tape (sdReadPartialBlock 0 446 66) 0
    full.value.1 = true ∧ part.value.1 = true ∧ part.place = full.place ∧ part.events = full.events ∧
      writtenTo (fun _ => 0) part.value.2 3 = 0xC3 ∧ writtenTo (fun _ => 0) part.value.2 66 = 0 := by
  intro tape full part
  obtain ⟨hres, hplace, hevents, -, hbytes⟩ :=
      partial_slice tape 0 0 (fun _ => 0) (show (446 : UInt16).toNat + (66 : UInt16).toNat ≤ 512 by decide)
  -- the answer is the first byte and the token the second
  have hvalue : full.value = (true, (List.range 512).map fun k => tape (2 + k)) :=
    sdReadBlock_bytes 0 (show playProg tape (readR1Response 0xFF) 0 = ⟨0, 1, [0xFF]⟩ from rfl)
      (show playProg tape (readToken 0xFFFF) 1 = ⟨(0xFE, 0xFFFE), 2, [0xFF]⟩ from rfl) (by decide)
  have hok : full.value.1 = true := congrArg Prod.fst hvalue
  have hlast : full.value.2.getD 449 0 = 0xC3 := by
    rw [hvalue, List.getD_eq_getElem _ _ (by simp), List.getElem_map, List.getElem_range]
    rfl
  refine ⟨hok, hres.trans hok, hplace, hevents, ?_, ?_⟩
  · rw [hbytes 3, if_pos ⟨hok, by decide⟩]
    exact hlast
  · rw [hbytes 66, if_neg fun h => absurd h.2 (by decide)]

end

end OpenGpos.Sd
