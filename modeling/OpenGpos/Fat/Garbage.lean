/-
  OpenGpos.Fat.Garbage — two calls of the iterator that differ in what their locals hold at first.
  What such a call knows of its locals whatever they held is a fold over its entries, like what it
  gathers (`Known.look`, `Known.Tracks`). A long name is the same in both calls exactly if enough is
  known where it is joined (`Known.Complete`), and with it the answer (`garbage_free_iff`).
-/
import OpenGpos.Fat.Sweep
import OpenGpos.Fat.Mixing
import OpenGpos.Fat.Lookup

namespace OpenGpos.Fat

open OpenGpos.Lib.Bytes OpenGpos.Libc.Strings

/-! ## Two calls -/

/-- The same memory behind the rows: the two differ in `lfn_buffer` and in `lfn_parts_found`. -/
def LfnLocals.SameBehind (l l' : LfnLocals) : Prop := ∀ j, 800 ≤ j → l'.buffer j = l.buffer j

/-- The call finds `l` on its stack. -/
def withLocals (env : Env) (l : LfnLocals) : Env := { env with stack := fun _ => l }

/-- What a caller sees of the call: the result, and the record as it is read. -/
def seen (env : Env) (fuel : Nat) (iter : DirIter) (info : FileInfo) (w : World) : Except Halt (FatError × DirItem) :=
  (fatReadNextDirEntry env fuel iter info w).map fun r => (r.1.1, r.1.2.2.item)

/-- That does not depend on what the locals hold at first. -/
def Independent (env : Env) (fuel : Nat) (iter : DirIter) (info : FileInfo) (w : World) : Prop :=
  ∀ l l', (env.stack w.frames).SameBehind l → (env.stack w.frames).SameBehind l' →
    seen (withLocals env l) fuel iter info w = seen (withLocals env l') fuel iter info w

/-- Nothing that the call hands back does, down to the bytes of the record behind the name. -/
def Identical (env : Env) (fuel : Nat) (iter : DirIter) (info : FileInfo) (w : World) : Prop :=
  ∀ l l', (env.stack w.frames).SameBehind l → (env.stack w.frames).SameBehind l' →
    fatReadNextDirEntry (withLocals env l) fuel iter info w = fatReadNextDirEntry (withLocals env l') fuel iter info w

theorem Identical.independent {env : Env} {fuel : Nat} {iter : DirIter} {info : FileInfo} {w : World}
    (h : Identical env fuel iter info w) : Independent env fuel iter info w := by
  intro l l' hl hl'
  rw [seen, seen, h l l' hl hl']

/-! ## What is known -/

/-- What is known of the locals whatever they held: the checksum, whether the count was set in this
    call (and is `count`, not `count` more than it was), and the text of a row that was written. -/
structure Known where
  sum : UInt8
  own : Bool
  count : UInt8
  rows : Nat → Option (List UInt8)

/-- At the start of a call: what lies behind the rows is not the call's to lose. -/
def Known.start (sum : UInt8) (l : LfnLocals) : Known :=
  ⟨sum, false, 0, fun i => if i < 20 then none else some (cstring l.buffer (i * 40) 255)⟩

def Known.drop (k : Known) : Known := { k with sum := 0, own := true, count := 0 }

def Known.add (k : Known) (e : Buf) : Known where
  sum := if StartsName e then e 13 else k.sum
  own := k.own
  count := k.count + 1
  rows i := if i = lfnRow e then some (lfnText e) else k.rows i

def Known.look (k : Known) (e : Buf) : Known :=
  if e 0 = 0xE5 then k
  else if e 11 &&& 0x0F = 0x0F then
    if HasRow e ∧ (StartsName e ∨ k.sum ≠ 0) then k.add e else k.drop
  else k.drop

def Known.text (k : Known) (i : Nat) : List UInt8 := (k.rows i).getD []

/-- The name that is joined is known: the count was set in this call, and a row that was not written
    finds the name full; or there is nothing in any row. -/
def Known.Complete (k : Known) : Prop :=
  if k.own = true then ∀ i < k.count.toNat, k.rows i = none → 255 ≤ ((List.range i).flatMap k.text).length
  else ∀ i < 255, k.rows i = some []

/-- The name of this short entry is known. -/
def Known.Named (k : Known) (e : Buf) : Prop := k.sum ≠ 0 → fatSfnChecksum e = k.sum → k.Complete

instance (k : Known) : Decidable k.Complete := by unfold Known.Complete; infer_instance
instance (k : Known) (e : Buf) : Decidable (k.Named e) := by unfold Known.Named; infer_instance

/-- A call that started on `l` is at `d`. -/
structure Known.Tracks (k : Known) (l : LfnLocals) (d : Decoding) : Prop where
  sum : d.lfnChecksum = k.sum
  count : d.locals.partsFound = if k.own = true then k.count else l.partsFound + k.count
  row : ∀ i < 20, ∀ t, k.rows i = some t → StringAt d.locals.buffer (i * 40) t ∧ t.length ≤ 13
  /-- A row that was not written is as it was. -/
  kept : ∀ i < 20, k.rows i = none → d.locals.buffer (i * 40) = l.buffer (i * 40)
  behind : ∀ i, 20 ≤ i → k.rows i = some (cstring d.locals.buffer (i * 40) 255)

section
variable {k : Known} {l base : LfnLocals} {d : Decoding} {info : FileInfo} {e : Buf}

theorem tracks_start {sum : UInt8} (h : base.SameBehind l) : (Known.start sum base).Tracks l ⟨sum, l, info⟩ := by
  refine ⟨rfl, (UInt8.add_zero _).symm, fun i hi t ht => ?_, fun i _ _ => rfl, fun i hi => ?_⟩
  · exact absurd ((if_pos hi).symm.trans ht) nofun
  · have hb : cstring l.buffer (i * 40) 255 = cstring base.buffer (i * 40) 255 := cstring_congr fun j h1 _ => h j (by omega)
    rw [hb]
    exact if_neg (by omega)

theorem Known.Tracks.drop (h : k.Tracks l d) (info : FileInfo) :
    k.drop.Tracks l ⟨0, { d.locals with partsFound := 0 }, info⟩ :=
  ⟨rfl, rfl, h.row, h.kept, h.behind⟩

theorem Known.Tracks.add (h : k.Tracks l d) (hr : HasRow e) : (k.add e).Tracks l
    ⟨if StartsName e then e 13 else d.lfnChecksum, ⟨rowWritten e d.locals.buffer, d.locals.partsFound + 1⟩, d.info⟩ := by
  have hrow := hasRow_row hr
  obtain ⟨hstr, hout⟩ := rowWritten_spec e d.locals.buffer
  refine ⟨by rw [h.sum]; rfl, ?_, fun i hi t ht => ?_, fun i hi hn => ?_, fun i hi => ?_⟩
  · show d.locals.partsFound + 1 = if k.own = true then k.count + 1 else l.partsFound + (k.count + 1)
    rw [h.count]
    split
    · rfl
    · exact UInt8.add_assoc ..
  · replace ht : (if i = lfnRow e then some (lfnText e) else k.rows i) = some t := ht
    by_cases he : i = lfnRow e
    · rw [if_pos he, Option.some_inj] at ht
      subst he ht
      exact ⟨hstr, length_lfnText e⟩
    · rw [if_neg he] at ht
      obtain ⟨hs, hlen⟩ := h.row i hi t ht
      exact ⟨hs.congr fun j h1 h2 => hout j (by omega), hlen⟩
  · replace hn : (if i = lfnRow e then some (lfnText e) else k.rows i) = none := hn
    by_cases he : i = lfnRow e
    · rw [if_pos he] at hn
      cases hn
    · rw [if_neg he] at hn
      exact (hout _ (by omega)).trans (h.kept i hi hn)
  · show (if i = lfnRow e then some (lfnText e) else k.rows i) = some (cstring (rowWritten e d.locals.buffer) (i * 40) 255)
    have hb : cstring (rowWritten e d.locals.buffer) (i * 40) 255 = cstring d.locals.buffer (i * 40) 255 :=
      cstring_congr fun j h1 _ => hout j (by omega)
    rw [if_neg (by omega), h.behind i hi, hb]

/-- What an entry does to the locals is known. -/
theorem Known.Tracks.pass (h : k.Tracks l d) (e : Buf) : (k.look e).Tracks l (d.pass e) :=
  Decoding.pass_keeps (R := fun (k : Known) d => k.Tracks l d) (fun _ _ => rfl) (fun _ _ h => h.sum)
    (fun _ _ _ h hr => h.add hr) (fun _ _ info h => h.drop info) h e

theorem Known.Tracks.foldl (es : List Buf) : ∀ {k : Known} {d : Decoding}, k.Tracks l d →
    (es.foldl Known.look k).Tracks l (es.foldl Decoding.pass d) := by
  induction es with
  | nil => exact fun h => h
  | cons e es ih => exact fun h => ih (h.pass e)

/-! ## The name that is joined -/

/-- The counted rows, joined and cut to the room there is. -/
def LfnLocals.joined (l : LfnLocals) : List UInt8 :=
  ((List.range l.partsFound.toNat).flatMap fun i => cstring l.buffer (i * 40) 255).take 255

/-- It is all that joining leaves of the locals. -/
theorem joinParts_joined (l : LfnLocals) (filename : Buf) : joinParts l filename = store8 (putStr filename l.joined) 255 0 := by
  have hrows : ∀ n, joinRows l filename n =
      putStr filename (((List.range n).flatMap fun i => cstring l.buffer (i * 40) 255).take 255) := by
    intro n
    induction n with
    | zero =>
      funext i
      show store8 filename 0 0 i = putStr filename [] i
      simp [store8, putStr]
    | succ n ih =>
      have hlen := (joinRows_string l filename n).strlen (n := 256) (by rw [List.length_take]; omega)
      rw [List.range_succ, List.flatMap_append, List.flatMap_singleton, joinRows_succ]
      generalize ((List.range n).flatMap fun i => cstring l.buffer (i * 40) 255) = t at *
      by_cases hp : l.buffer (n * 40) ≠ 0
      · rw [if_pos hp, strncat, hlen, ih, strncatLoop_putStr, List.take_append,
          ← cstring_take l.buffer (n * 40) (Nat.sub_le 255 t.length), List.length_take]
        congr 3
        omega
      · have hnil : cstring l.buffer (n * 40) 255 = [] := if_pos (not_not.mp hp)
        rw [if_neg hp, hnil, List.append_nil, ih]
  exact congrArg (store8 · 255 0) (hrows _)

theorem Known.Tracks.cstring_row (h : k.Tracks l d) {i : Nat} {t : List UInt8} (ht : k.rows i = some t) :
    cstring d.locals.buffer (i * 40) 255 = t := by
  by_cases hi : i < 20
  · obtain ⟨hs, hlen⟩ := h.row i hi t ht
    exact hs.cstring (by omega)
  · rw [h.behind i (by omega)] at ht
    exact Option.some_inj.mp ht

/-- As far as the rows are known or the name is full. -/
theorem Known.Tracks.rows_known (h : k.Tracks l d) (n : Nat)
    (hk : ∀ i < n, k.rows i = none → 255 ≤ ((List.range i).flatMap k.text).length) :
    ((List.range n).flatMap fun i => cstring d.locals.buffer (i * 40) 255).take 255 =
      ((List.range n).flatMap k.text).take 255 := by
  induction n with
  | zero => rfl
  | succ n ih =>
    have ih := ih fun i hi => hk i (by omega)
    rw [List.range_succ, List.flatMap_append, List.flatMap_append, List.flatMap_singleton, List.flatMap_singleton]
    cases hr : k.rows n with
    | some t =>
      have htext : k.text n = t := congrArg (·.getD []) hr
      have hlen := congrArg List.length ih
      rw [List.length_take, List.length_take] at hlen
      rw [h.cstring_row hr, htext, List.take_append, List.take_append, ih]
      congr 2
      omega
    | none =>
      have hfull := hk n (Nat.lt_succ_self n) hr
      have htext : k.text n = [] := congrArg (·.getD []) hr
      have hlen := congrArg List.length ih
      rw [List.length_take, List.length_take] at hlen
      rw [htext, List.append_nil, List.take_append_of_le_length (by omega)]
      exact ih

/-- Where enough is known, calls that differ in their locals join the same name. -/
theorem Known.Complete.joined_eq {l' : LfnLocals} {d' : Decoding} (hk : k.Complete) (h : k.Tracks l d) (h' : k.Tracks l' d') :
    d.locals.joined = d'.locals.joined := by
  unfold Known.Complete at hk
  by_cases ho : k.own = true
  · rw [if_pos ho] at hk
    have hc := h.count
    have hc' := h'.count
    rw [if_pos ho] at hc hc'
    rw [LfnLocals.joined, LfnLocals.joined, hc, hc', h.rows_known _ hk, h'.rows_known _ hk]
  · rw [if_neg ho] at hk
    have hnil : ∀ {l : LfnLocals} {d : Decoding}, k.Tracks l d → d.locals.joined = [] := by
      intro l d h
      have hlt := d.locals.partsFound.toNat_lt
      have hrows : ((List.range d.locals.partsFound.toNat).flatMap fun i => cstring d.locals.buffer (i * 40) 255) = [] := by
        apply List.flatMap_eq_nil_iff.mpr
        intro i hi
        have hlt' := List.mem_range.mp hi
        exact h.cstring_row (hk i (by omega))
      rw [LfnLocals.joined, hrows, List.take_nil]
    rw [hnil h, hnil h']

/-- Locals with one character all over the rows. -/
def LfnLocals.filled (l : LfnLocals) (c parts : UInt8) : LfnLocals :=
  ⟨fun j => if j < 800 then c else l.buffer j, parts⟩

theorem sameBehind_filled (base : LfnLocals) (c parts : UInt8) : base.SameBehind (base.filled c parts) :=
  fun _ hj => if_neg (by omega)

/-- A row that was not written shows the character. -/
theorem Known.Tracks.filled_row {c parts : UInt8} (h : k.Tracks (base.filled c parts) d) (hc : c ≠ 0) {i : Nat}
    (hr : k.rows i = none) : ∃ t, cstring d.locals.buffer (i * 40) 255 = c :: t := by
  have hi : i < 20 := by
    by_contra hn
    rw [h.behind i (by omega)] at hr
    cases hr
  have hb : d.locals.buffer (i * 40) = c := (h.kept i hi hr).trans (if_pos (by omega))
  refine ⟨cstring d.locals.buffer (i * 40 + 1) 254, ?_⟩
  rw [← hb] at hc ⊢
  exact if_neg hc

/-- And where not enough is known, there are two that do not. -/
theorem Known.complete_iff {reached : LfnLocals → Decoding} (ht : ∀ l, base.SameBehind l → k.Tracks l (reached l)) :
    k.Complete ↔ ∀ l l', base.SameBehind l → base.SameBehind l' → (reached l).locals.joined = (reached l').locals.joined := by
  refine ⟨fun hk l l' h h' => hk.joined_eq (ht l h) (ht l' h'), fun hsame => ?_⟩
  have hfill := fun c parts => ht _ (sameBehind_filled base c parts)
  have hsame := fun c parts c' parts' => hsame _ _ (sameBehind_filled base c parts) (sameBehind_filled base c' parts')
  unfold Known.Complete
  by_cases ho : k.own = true
  · rw [if_pos ho]
    by_contra hn
    -- the first row that is missing: what fills it comes right behind the rows before
    have hex : ∃ i, i < k.count.toNat ∧ k.rows i = none ∧ ((List.range i).flatMap k.text).length < 255 := by
      push Not at hn
      exact hn
    classical
    obtain ⟨hi, hr, hlen⟩ := Nat.find_spec hex
    have hmin := fun j => Nat.find_min hex (m := j)
    generalize Nat.find hex = i at *
    have hat : ∀ c : UInt8, c ≠ 0 → (reached (base.filled c 0)).locals.joined[((List.range i).flatMap k.text).length]? = some c := by
      intro c hc
      have h := hfill c 0
      have hcount := h.count
      rw [if_pos ho] at hcount
      have hpre := congrArg List.length (h.rows_known i fun j hj hjn => by
        by_contra hlt
        exact hmin j hj ⟨by omega, hjn, by omega⟩)
      obtain ⟨t, hrow⟩ := h.filled_row hc hr
      obtain ⟨rest, htext, -⟩ := flatMap_range_le (fun i => cstring (reached (base.filled c 0)).locals.buffer (i * 40) 255)
        (show i + 1 ≤ k.count.toNat from hi)
      rw [List.range_succ, List.flatMap_append, List.flatMap_singleton, hrow] at htext
      rw [List.length_take, List.length_take] at hpre
      rw [LfnLocals.joined, hcount, htext, List.getElem?_take_of_lt hlen]
      generalize ((List.range i).flatMap fun i => cstring (reached (base.filled c 0)).locals.buffer (i * 40) 255) = pre at *
      rw [show ((List.range i).flatMap k.text).length = pre.length by omega]
      simp
    have h1 := hat 0x58 (by decide)
    rw [hsame 0x58 0 0x59 0, hat 0x59 (by decide)] at h1
    cases h1
  · rw [if_neg ho]
    have hcount : ∀ parts, (reached (base.filled 0x58 (parts - k.count))).locals.partsFound = parts := by
      intro parts
      have h := (hfill 0x58 (parts - k.count)).count
      rw [if_neg ho] at h
      exact h.trans (UInt8.sub_add_cancel ..)
    have hjoin := hsame 0x58 (255 - k.count) 0x58 (0 - k.count)
    rw [LfnLocals.joined, LfnLocals.joined, hcount, hcount] at hjoin
    have hrows := (List.take_eq_nil_iff.mp hjoin).resolve_left (by decide)
    intro i hi
    have h := hfill 0x58 (255 - k.count)
    have hnil := List.flatMap_eq_nil_iff.mp hrows i (List.mem_range.mpr hi)
    cases hr : k.rows i with
    | none =>
      obtain ⟨t, ht⟩ := h.filled_row (by decide) hr
      rw [ht] at hnil
      cases hnil
    | some t => rw [← h.cstring_row hr, hnil]

/-! ## The record -/

/-- What is read of the record behind a short entry. -/
theorem sfnEntry_seen (e : Buf) (sum : UInt8) (l : LfnLocals) (info : FileInfo) : (sfnEntry e sum l info).item =
    ⟨if sum ≠ 0 ∧ fatSfnChecksum e = sum then l.joined else shortName e,
      ((readLe16 e 20).toUInt32 <<< 16) ||| (readLe16 e 26).toUInt32, readLe32 e 28, e 11, e 11 &&& 0x10 != 0⟩ := by
  have hname : cstring (sfnEntry e sum l info).filename 0 256 =
      if sum ≠ 0 ∧ fatSfnChecksum e = sum then l.joined else shortName e := by
    unfold sfnEntry
    dsimp only
    by_cases h : sum ≠ 0 ∧ fatSfnChecksum e = sum
    · rw [if_pos h, if_pos h]
      apply (joinParts_spec l info.filename).cstring
      rw [List.length_take]
      omega
    · rw [if_neg h, if_neg h, fatSfnToString_spec]
  rw [FileInfo.item, hname]
  rfl

/-- The name of a short entry is known exactly if all calls that came to it read the same. -/
theorem Known.named_iff {reached : LfnLocals → Decoding} (ht : ∀ l, base.SameBehind l → k.Tracks l (reached l)) :
    k.Named e ↔ ∀ l l', base.SameBehind l → base.SameBehind l' →
      (sfnEntry e (reached l).lfnChecksum (reached l).locals (reached l).info).item =
        (sfnEntry e (reached l').lfnChecksum (reached l').locals (reached l').info).item := by
  unfold Known.Named
  constructor
  · intro hk l l' h h'
    rw [sfnEntry_seen, sfnEntry_seen, (ht l h).sum, (ht l' h').sum]
    by_cases hs : k.sum ≠ 0 ∧ fatSfnChecksum e = k.sum
    · rw [if_pos hs, if_pos hs, (hk hs.1 hs.2).joined_eq (ht l h) (ht l' h')]
    · rw [if_neg hs, if_neg hs]
  · intro hsame h0 hs
    rw [complete_iff ht]
    intro l l' h h'
    have hname := congrArg DirItem.name (hsame l l' h h')
    rwa [sfnEntry_seen, sfnEntry_seen, (ht l h).sum, (ht l' h').sum, if_pos ⟨h0, hs⟩, if_pos ⟨h0, hs⟩] at hname

/-- Where it is known the record is the same byte for byte, if it was before. -/
theorem Known.Named.pass_info {l' : LfnLocals} {d' : Decoding} (hk : IsShort e → k.Named e) (h : k.Tracks l d) (h' : k.Tracks l' d')
    (hi : d.info = d'.info) : (d.pass e).info = (d'.pass e).info := by
  by_cases he : IsShort e
  · rw [Decoding.pass_short he, Decoding.pass_short he]
    show sfnEntry e d.lfnChecksum d.locals d.info = sfnEntry e d'.lfnChecksum d'.locals d'.info
    unfold sfnEntry
    rw [h.sum, h'.sum, hi]
    by_cases hs : k.sum ≠ 0 ∧ fatSfnChecksum e = k.sum
    · rw [if_pos hs, if_pos hs, joinParts_joined, joinParts_joined, (hk he hs.1 hs.2).joined_eq h h']
    · rw [if_neg hs, if_neg hs]
  · rw [Decoding.pass_info he, Decoding.pass_info he, hi]

theorem foldl_info_known {l' : LfnLocals} (es : List Buf) : ∀ {k : Known} {d d' : Decoding}, k.Tracks l d → k.Tracks l' d' →
    d.info = d'.info → Along Known.look (fun k e => IsShort e → k.Named e) k es →
    (es.foldl Decoding.pass d).info = (es.foldl Decoding.pass d').info := by
  induction es with
  | nil => exact fun _ _ hi _ => hi
  | cons e es ih =>
    intro k d d' h h' hi ha
    rw [along_cons] at ha
    exact ih (h.pass e) (h'.pass e) (Known.Named.pass_info ha.1 h h' hi) ha.2

end

/-! ## The call -/

/-- The last short entry, if there is one. -/
theorem last_short (es : List Buf) : (∀ e ∈ es, ¬ IsShort e) ∨
    ∃ before e after, es = before ++ e :: after ∧ IsShort e ∧ ∀ x ∈ after, ¬ IsShort x := by
  induction es with
  | nil => exact Or.inl nofun
  | cons e es ih =>
    rcases ih with hnone | ⟨before, x, after, rfl, hx⟩
    · by_cases he : IsShort e
      · exact Or.inr ⟨[], e, es, rfl, he, hnone⟩
      · exact Or.inl (List.forall_mem_cons.mpr ⟨he, hnone⟩)
    · exact Or.inr ⟨e :: before, x, after, rfl, hx⟩

/-- The record is the one that it left. -/
theorem foldl_info_none (es : List Buf) : ∀ d : Decoding, (∀ e ∈ es, ¬ IsShort e) → (es.foldl Decoding.pass d).info = d.info := by
  induction es with
  | nil => exact fun _ _ => rfl
  | cons e es ih =>
    intro d h
    rw [List.forall_mem_cons] at h
    exact (ih _ h.2).trans (Decoding.pass_info h.1 d)

/-- The record is the one that the last short entry left. -/
theorem foldl_info_last {before after : List Buf} {e : Buf} (he : IsShort e) (hafter : ∀ x ∈ after, ¬ IsShort x) (d : Decoding) :
    ((before ++ e :: after).foldl Decoding.pass d).info =
      sfnEntry e (before.foldl Decoding.pass d).lfnChecksum (before.foldl Decoding.pass d).locals
        (before.foldl Decoding.pass d).info := by
  rw [List.foldl_append, List.foldl_cons, foldl_info_none _ _ hafter, Decoding.pass_short he]

/-- What is read of the record behind the entries is the same exactly if the last name is known. -/
theorem foldl_item_iff {k : Known} {base : LfnLocals} {reached : LfnLocals → Decoding} (es : List Buf)
    (ht : ∀ l, base.SameBehind l → k.Tracks l (reached l)) (hinfo : ∀ l l', (reached l).info = (reached l').info) :
    (∀ l l', base.SameBehind l → base.SameBehind l' →
      (es.foldl Decoding.pass (reached l)).info.item = (es.foldl Decoding.pass (reached l')).info.item) ↔
    ∀ before e after, es = before ++ e :: after → IsShort e → (∀ x ∈ after, ¬ IsShort x) →
      (before.foldl Known.look k).Named e := by
  constructor
  · rintro hsame before e after rfl he hafter
    rw [Known.named_iff fun l hl => (ht l hl).foldl before]
    intro l l' h h'
    have hitem := hsame l l' h h'
    rwa [foldl_info_last he hafter, foldl_info_last he hafter] at hitem
  · intro hk l l' h h'
    rcases last_short es with hnone | ⟨before, e, after, rfl, he, hafter⟩
    · rw [foldl_info_none _ _ hnone, foldl_info_none _ _ hnone, hinfo l l']
    · have hnamed := hk before e after rfl he hafter
      rw [foldl_info_last he hafter, foldl_info_last he hafter]
      exact (Known.named_iff fun l hl => (ht l hl).foldl before).mp hnamed l l' h h'

section
variable {env : Env} {fuel : Nat} {iter : DirIter} {info : FileInfo} {w : World}

theorem fatReadNextDirEntry_sweep (hi : w.vol.isInitialized = true) : fatReadNextDirEntry env fuel iter info w =
    (sweep env fuel iter { w with frames := w.frames + 1 }).decode ⟨iter.lfnChecksum, env.stack w.frames, info⟩ := by
  rw [← readDirLoop_sweep]
  simp only [fatReadNextDirEntry, bind_apply, get_apply, ok_bind, hi, Bool.not_true, Bool.false_eq_true, if_false, modify_apply]

/-- Which entries a call looks at is no matter of its locals. -/
theorem sweep_withLocals (l : LfnLocals) (fuel : Nat) : ∀ (iter : DirIter) (w : World),
    sweep (withLocals env l) fuel iter w = sweep env fuel iter w := by
  induction fuel with
  | zero => exact fun _ _ => rfl
  | succ fuel ih =>
    intro iter w
    simp only [sweep, ih]
    rfl

end

/-- If the call comes to an end, the name of the last short entry that it decoded is known. -/
def LastNamed (env : Env) (fuel : Nat) (iter : DirIter) (w : World) : Prop :=
  w.vol.isInitialized = true →
    let s := sweep env fuel iter { w with frames := w.frames + 1 }
    ∀ r before e after, s.finish = .ok r → s.entries = before ++ e :: after → IsShort e → (∀ x ∈ after, ¬ IsShort x) →
      (before.foldl Known.look (Known.start iter.lfnChecksum (env.stack w.frames))).Named e

/-- The name of every short entry that it decodes is known, of the labels on its way as well. -/
def AllNamed (env : Env) (fuel : Nat) (iter : DirIter) (w : World) : Prop :=
  w.vol.isInitialized = true →
    Along Known.look (fun k e => IsShort e → k.Named e) (Known.start iter.lfnChecksum (env.stack w.frames))
      (sweep env fuel iter { w with frames := w.frames + 1 }).entries

/-- There is no label on its way: it decodes one short entry at most. -/
def OneShort (env : Env) (fuel : Nat) (iter : DirIter) (w : World) : Prop :=
  w.vol.isInitialized = true →
    ∀ before e after, (sweep env fuel iter { w with frames := w.frames + 1 }).entries = before ++ e :: after →
      IsShort e → ∀ x ∈ after, ¬ IsShort x

section
variable {env : Env} {fuel : Nat} {iter : DirIter} {info : FileInfo} {w : World}

theorem fatReadNextDirEntry_withLocals (hi : w.vol.isInitialized = true) (l : LfnLocals) :
    fatReadNextDirEntry (withLocals env l) fuel iter info w =
      (sweep env fuel iter { w with frames := w.frames + 1 }).decode ⟨iter.lfnChecksum, l, info⟩ := by
  rw [fatReadNextDirEntry_sweep hi, sweep_withLocals]
  rfl

/-- A call before the mount. -/
theorem identical_unmounted (hi : w.vol.isInitialized = false) : Identical env fuel iter info w := by
  have hcall : ∀ l, fatReadNextDirEntry (withLocals env l) fuel iter info w = .ok ((.notInitialized, iter, info), w) := by
    intro l
    simp only [fatReadNextDirEntry, bind_apply, get_apply, ok_bind, hi, Bool.not_false, if_true, pure_apply]
  intro l l' _ _
  rw [hcall, hcall]

/-- One that does not come to an end. -/
theorem identical_halt (hi : w.vol.isInitialized = true) {halt : Halt}
    (hf : (sweep env fuel iter { w with frames := w.frames + 1 }).finish = .error halt) : Identical env fuel iter info w := by
  have hcall : ∀ l, fatReadNextDirEntry (withLocals env l) fuel iter info w = .error halt := by
    intro l
    rw [fatReadNextDirEntry_withLocals hi]
    exact congrArg (Except.map _) hf
  intro l l' _ _
  rw [hcall, hcall]

theorem independent_iff : Independent env fuel iter info w ↔ LastNamed env fuel iter w := by
  unfold LastNamed
  cases hi : w.vol.isInitialized with
  | false => exact iff_of_true (identical_unmounted hi).independent fun h => Bool.noConfusion h
  | true =>
    rw [forall_prop_of_true rfl]
    cases hf : (sweep env fuel iter { w with frames := w.frames + 1 }).finish with
    | error halt => exact iff_of_true (identical_halt hi hf).independent fun r _ _ _ hr => nomatch hf.symm.trans hr
    | ok r =>
      have hseen : ∀ l, seen (withLocals env l) fuel iter info w =
          .ok (r.1.1, ((sweep env fuel iter { w with frames := w.frames + 1 }).entries.foldl Decoding.pass
            ⟨iter.lfnChecksum, l, info⟩).info.item) := by
        intro l
        rw [seen, fatReadNextDirEntry_withLocals hi, Sweep.decode, hf]
        rfl
      simp only [Independent, hseen, Except.ok.injEq, Prod.mk.injEq, true_and]
      rw [foldl_item_iff _ (fun l => tracks_start) fun _ _ => rfl]
      exact ⟨fun h _ before e after _ => h before e after, fun h before e after => h r before e after hf⟩

theorem AllNamed.identical (ha : AllNamed env fuel iter w) (info : FileInfo) : Identical env fuel iter info w := by
  cases hi : w.vol.isInitialized with
  | false => exact identical_unmounted hi
  | true =>
    intro l l' h h'
    have ht : ∀ l, (env.stack w.frames).SameBehind l →
        (Known.start iter.lfnChecksum (env.stack w.frames)).Tracks l ⟨iter.lfnChecksum, l, info⟩ := fun l => tracks_start
    rw [fatReadNextDirEntry_withLocals hi, fatReadNextDirEntry_withLocals hi]
    have ha := ha hi
    generalize sweep env fuel iter { w with frames := w.frames + 1 } = s at *
    have hinfo := foldl_info_known s.entries (ht l h) (ht l' h') rfl ha
    have hsum := ((ht l h).foldl s.entries).sum.trans ((ht l' h').foldl s.entries).sum.symm
    simp only [Sweep.decode, hinfo, hsum]

/-- Without a label on the way the last name is all there is. -/
theorem LastNamed.identical (hone : OneShort env fuel iter w) (h : LastNamed env fuel iter w) (info : FileInfo) :
    Identical env fuel iter info w := by
  cases hi : w.vol.isInitialized with
  | false => exact identical_unmounted hi
  | true =>
    cases hf : (sweep env fuel iter { w with frames := w.frames + 1 }).finish with
    | error halt => exact identical_halt hi hf
    | ok r =>
      have ha : AllNamed env fuel iter w := fun _ before e after hes he =>
        h hi r before e after hf hes he (hone hi before e after hes he)
      exact ha.identical info

end

/-- What the locals hold at first is not seen exactly if the name of the last short entry is known.
    If all names are, nothing that the call hands back depends on it; and where no label is on the
    way, that is so exactly if the last one is. -/
theorem garbage_unseen_iff (env : Env) (fuel : Nat) (iter : DirIter) (info : FileInfo) (w : World) :
    (Independent env fuel iter info w ↔ LastNamed env fuel iter w) ∧
    (AllNamed env fuel iter w → Identical env fuel iter info w) ∧
    (OneShort env fuel iter w → (Identical env fuel iter info w ↔ LastNamed env fuel iter w)) :=
  ⟨independent_iff, fun ha => ha.identical info, fun hone =>
    ⟨fun h => independent_iff.mp h.independent, fun h => h.identical hone info⟩⟩

/-! ## Two directories -/

/-- The sample card with these bytes at the start of its root directory. -/
def rootCard (bytes : List UInt8) : Env :=
  { sampleCard with block := fun lba i => if lba = 3 then bytes.getD i 0 else sampleCard.block lba i }

/-- The one part of the long name `a`, and the short entry `A` that it goes with. -/
def longEntry : List UInt8 := [0x41, 0x61] ++ List.replicate 9 0 ++ [0x0F, 0, 0x80] ++ List.replicate 18 0

def shortEntry : List UInt8 := 0x41 :: (List.replicate 11 0x20 ++ List.replicate 20 0)

/-- A volume label. -/
def labelEntry : List UInt8 := 0x56 :: (List.replicate 10 0x20 ++ 0x08 :: List.replicate 20 0)

def unlabelledCard : Env := rootCard (longEntry ++ shortEntry)

def labelledCard : Env := rootCard (labelEntry ++ longEntry ++ shortEntry)

/-- Behind a label the count is known, and with it the name. -/
theorem garbage_unseen_label : AllNamed labelledCard 30 (freshIter 2) (after (fat32Init labelledCard World.boot)) ∧
    Identical labelledCard 30 (freshIter 2) default (after (fat32Init labelledCard World.boot)) := by
  have hall : AllNamed labelledCard 30 (freshIter 2) (after (fat32Init labelledCard World.boot)) := by
    unfold AllNamed
    decide +kernel
  exact ⟨hall, (garbage_unseen_iff labelledCard 30 (freshIter 2) default _).2.1 hall⟩

/-- Without one, the first call of a new iterator reads `a` if the count was 0 and nothing if it was 255. -/
theorem garbage_in_the_name :
    fatInitRootDirIterator default 2 (after (fat32Init unlabelledCard World.boot)) =
      .ok ((.success, freshIter 2), after (fat32Init unlabelledCard World.boot)) ∧
    ¬ Independent unlabelledCard 30 (freshIter 2) default (after (fat32Init unlabelledCard World.boot)) := by
  refine ⟨fatInitRootDirIterator_apply (by decide +kernel) _ _, fun h => ?_⟩
  have hsame := h ⟨fun _ => 0, 0⟩ ⟨fun _ => 0, 255⟩ (fun _ _ => rfl) fun _ _ => rfl
  exact absurd hsame (by decide +kernel)

end OpenGpos.Fat
