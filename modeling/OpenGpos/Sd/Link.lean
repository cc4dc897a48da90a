/-
  OpenGpos.Sd.Link — the driver on a port that is slower than the processor, beside any card that
  answers commands. Behind a command there are up to sixteen bytes under way, more than the receive
  queue holds; but what is shifted while the command is pushed are bytes from before it, so no answer
  is lost (`Pressed.push`), and the loops that read it push one byte for each they pop. `Serves` is
  about calls that find and leave a port where only 0xFF is under way.
-/
import OpenGpos.Lib.Prompt
import OpenGpos.Sd.Driver

namespace OpenGpos.Sd

open OpenGpos.Lib.Fifo

/-- A card and its end of the port. -/
structure Link (κ : Type) where
  card : κ
  /-- What was received of a command. -/
  command : List UInt8
  /-- What is to be sent. -/
  pending : List UInt8

variable {κ α β : Type}

/-- Six bytes make a command, if the first begins with 01; while the card sends it does not listen. -/
def listen (respond : κ → List UInt8 → κ × List UInt8) (s : Link κ) (b : UInt8) : Link κ × UInt8 :=
  match s.pending with
  | r :: rest => ({ s with pending := rest }, r)
  | [] =>
    if s.command = [] ∧ b &&& 0xC0 ≠ 0x40 then (s, 0xFF)
    else
      let command := s.command ++ [b]
      if command.length < 6 then ({ s with command := command }, 0xFF)
      else
        let (card, pending) := respond s.card command
        (⟨card, [], pending⟩, 0xFF)

section
variable {respond : κ → List UInt8 → κ × List UInt8}

/-! ## What is ahead -/

/-- While the card is sent 0xFF the queue and then the card bring `l`, and 0xFF behind it. -/
def Stands (k : κ) (q : List UInt8) (s : Link κ) (l : List UInt8) : Prop :=
  s.card = k ∧ s.command = [] ∧ (l = q ++ s.pending ∨ s.pending = [] ∧ ∃ j, q = l ++ idle j)

theorem Stands.pop {k : κ} {q : List UInt8} {s : Link κ} {r r' : UInt8} {l : List UInt8}
    (h : Stands k (r :: q) s (r' :: l)) : r = r' ∧ Stands k q s l := by
  obtain ⟨hk, hc, ha | ⟨hp, j, hj⟩⟩ := h
  · obtain ⟨rfl, rfl⟩ := List.cons.inj ha
    exact ⟨rfl, hk, hc, .inl rfl⟩
  · obtain ⟨rfl, hq⟩ := List.cons.inj hj
    exact ⟨rfl, hk, hc, .inr ⟨hp, j, hq⟩⟩

theorem Stands.push {k : κ} {q : List UInt8} {s : Link κ} {l : List UInt8} (h : Stands k q s l) :
    Stands k (q ++ [(listen respond s 0xFF).2]) (listen respond s 0xFF).1 l := by
  obtain ⟨card, command, pending⟩ := s
  obtain ⟨rfl, rfl, ha⟩ : card = k ∧ command = [] ∧ _ := h
  cases pending with
  | nil =>
    refine ⟨rfl, rfl, .inr ⟨rfl, ?_⟩⟩
    show ∃ j, q ++ [0xFF] = l ++ idle j
    rcases ha with rfl | ⟨-, j, rfl⟩
    · exact ⟨1, by rw [List.append_nil]; rfl⟩
    · refine ⟨j + 1, ?_⟩
      rw [List.append_assoc]
      exact congrArg (l ++ ·) List.replicate_succ'.symm
  | cons r rest =>
    refine ⟨rfl, rfl, .inl ?_⟩
    show l = q ++ [r] ++ rest
    rcases ha with rfl | ⟨hp, -⟩
    · rw [List.append_assoc]
      rfl
    · cases hp

/-- What the pops will find. -/
abbrev Brings (respond : κ → List UInt8 → κ × List UInt8) (k : κ) : List UInt8 → List UInt8 → Link κ → List UInt8 → Prop :=
  Ahead (listen respond) (Stands k)

theorem serve_reads {p : SpiProg α} {l l' : List UInt8} {a : α} (h : Reads 0xFF p l a l') {k : κ} {tx rx : List UInt8}
    {s : Link κ} (hl : Loaded fifoDepth tx rx) (ha : Brings respond k tx rx s l) :
    ∃ tx' rx' s', Prompt fifoDepth (listen respond) p tx rx s a tx' rx' s' ∧ Loaded fifoDepth tx' rx' ∧
      Brings respond k tx' rx' s' l' :=
  h.prompt (by decide) (fun _ _ _ _ _ hs => hs.pop) (fun _ _ _ hs => hs.push) hl ha

/-! ## Nothing but 0xFF -/

/-- Everything under way will bring 0xFF, and the card behind it waits for a command. -/
structure Silent (respond : κ → List UInt8 → κ × List UInt8) (k : κ) (tx rx : List UInt8) (s : Link κ) : Prop where
  after : after (listen respond) s tx = ⟨k, [], []⟩
  idle : rx ++ replies (listen respond) s tx = idle (rx.length + tx.length)
  tx : tx.length ≤ fifoDepth
  rx : rx.length ≤ fifoDepth

variable {k k' : κ} {tx rx : List UInt8} {s : Link κ}

theorem idle_append_inv {l m : List UInt8} {n : Nat} (h : l ++ m = idle n) : l = idle l.length ∧ m = idle m.length := by
  have hall : ∀ b ∈ l ++ m, b = 0xFF := by
    rw [h]
    exact fun b hb => List.eq_of_mem_replicate hb
  exact ⟨List.eq_replicate_iff.mpr ⟨rfl, fun b hb => hall b (List.mem_append_left _ hb)⟩,
    List.eq_replicate_iff.mpr ⟨rfl, fun b hb => hall b (List.mem_append_right _ hb)⟩⟩

theorem idle_append (m n : Nat) : idle m ++ idle n = idle (m + n) := List.replicate_append_replicate ..

/-- A byte that was under way is shifted, whether its answer is lost or not. -/
theorem Silent.shift {d : UInt8} (h : Silent respond k (d :: tx) rx s) :
    Silent respond k tx (enqueue fifoDepth rx (listen respond s d).2) (listen respond s d).1 := by
  have hidle := h.idle
  have htx := h.tx
  rw [List.length_cons] at htx
  change rx ++ ((listen respond s d).2 :: replies (listen respond) (listen respond s d).1 tx) = _ at hidle
  obtain ⟨hrx, hrest⟩ := idle_append_inv hidle
  have hd : (listen respond s d).2 = 0xFF := (List.cons.inj hrest).1
  have hreplies := (List.cons.inj hrest).2
  rw [length_replies] at hreplies
  obtain ⟨n, rfl⟩ : ∃ n, rx = Sd.idle n := ⟨_, hrx⟩
  have hrx8 := h.rx
  rw [Sd.idle, List.length_replicate] at hrx8
  rw [hd, enqueue_idle hrx8]
  refine ⟨h.after, ?_, Nat.le_of_succ_le htx, ?_⟩
  · refine (congrArg (Sd.idle (min fifoDepth (n + 1)) ++ ·) hreplies).trans ?_
    rw [Sd.idle, List.length_replicate]
    exact idle_append ..
  · rw [Sd.idle, List.length_replicate]
    exact Nat.min_le_left ..

/-- Bytes of a command behind a silent port. -/
structure Pressed (respond : κ → List UInt8 → κ × List UInt8) (k : κ) (command tx rx : List UInt8) (s : Link κ) : Prop where
  split : ∃ before, tx = before ++ command ∧ Silent respond k before rx s
  tx : tx.length ≤ fifoDepth

/-- From here on the program `p` comes to what `p'` comes to from there. -/
def Leads (respond : κ → List UInt8 → κ × List UInt8) (p p' : SpiProg α) (tx rx : List UInt8) (s : Link κ)
    (tx' rx' : List UInt8) (s' : Link κ) : Prop :=
  ∀ a tx'' rx'' s'', Prompt fifoDepth (listen respond) p' tx' rx' s' a tx'' rx'' s'' →
    Prompt fifoDepth (listen respond) p tx rx s a tx'' rx'' s''

/-- One more byte of the command: if the transmit queue is full, what is shifted is from before. -/
theorem Pressed.push {command : List UInt8} (h : Pressed respond k command tx rx s) (hl : command.length < fifoDepth)
    (b : UInt8) (p : SpiProg α) : ∃ tx' rx' s', Pressed respond k (command ++ [b]) tx' rx' s' ∧
      Leads respond (.push b p) p tx rx s tx' rx' s' := by
  obtain ⟨⟨before, rfl, hs⟩, htx⟩ := h
  by_cases hf : (before ++ command).length < fifoDepth
  · refine ⟨before ++ command ++ [b], rx, s, ⟨⟨before, List.append_assoc .., hs⟩, ?_⟩, fun _ _ _ _ hp => .push hf hp⟩
    rw [List.length_append]
    exact hf
  · cases before with
    | nil => exact absurd hl hf
    | cons d before =>
      have hroom : (before ++ command).length < fifoDepth := htx
      refine ⟨before ++ command ++ [b], _, _, ⟨⟨before, List.append_assoc .., hs.shift⟩, ?_⟩,
        fun _ _ _ _ hp => .pushFull (Nat.not_lt.mp hf) (.push hroom hp)⟩
      rw [List.length_append]
      exact hroom

/-- A dummy byte. -/
theorem Silent.push (h : Silent respond k tx rx s) (p : SpiProg α) : ∃ tx' rx' s', Silent respond k tx' rx' s' ∧
    Leads respond (.push 0xFF p) p tx rx s tx' rx' s' := by
  have hpressed : Pressed respond k [] tx rx s := ⟨⟨tx, (List.append_nil tx).symm, h⟩, h.tx⟩
  obtain ⟨tx', rx', s', ⟨⟨before, rfl, hs⟩, htx⟩, hlead⟩ := hpressed.push (by decide) 0xFF p
  refine ⟨_, rx', s', ⟨?_, ?_, htx, hs.rx⟩, hlead⟩
  · rw [List.nil_append, after_append, hs.after]
    rfl
  · rw [List.nil_append, replies_append, ← List.append_assoc, hs.idle, hs.after, List.length_append]
    exact List.replicate_succ'.symm

/-! ## A command and its answer -/

theorem link_command {c b1 b2 b3 b4 crc : UInt8} (hc : c &&& 0xC0 = 0x40) {reply : List UInt8}
    (hr : respond k [c, b1, b2, b3, b4, crc] = (k', reply)) :
    after (listen respond) ⟨k, [], []⟩ [c, b1, b2, b3, b4, crc] = ⟨k', [], reply⟩ ∧
      replies (listen respond) ⟨k, [], []⟩ [c, b1, b2, b3, b4, crc] = Sd.idle 6 := by
  constructor
  · simp [Lib.Fifo.after, listen, hc, hr]
  · simp [replies, listen, hc, Sd.idle]

theorem Pressed.brings {c b1 b2 b3 b4 crc : UInt8} (hc : c &&& 0xC0 = 0x40) {reply : List UInt8}
    (hr : respond k [c, b1, b2, b3, b4, crc] = (k', reply))
    (h : Pressed respond k ([c, b1, b2, b3, b4, crc] ++ [0xFF]) tx rx s) :
    ∃ j ≤ 22, Brings respond k' tx rx s (Sd.idle j ++ reply) := by
  obtain ⟨⟨before, rfl, hs⟩, htx⟩ := h
  obtain ⟨hafter, hreplies⟩ := link_command hc hr
  have hlen := hs.tx
  have hrx := hs.rx
  unfold fifoDepth at hlen hrx
  refine ⟨rx.length + before.length + 6, by omega, ?_⟩
  have hstands : Stands k' (rx ++ replies (listen respond) s before ++ Sd.idle 6) ⟨k', [], reply⟩
      (Sd.idle (rx.length + before.length + 6) ++ reply) := by
    refine ⟨rfl, rfl, .inl ?_⟩
    rw [hs.idle, idle_append]
  have hpush : Stands k' _ (listen respond ⟨k', [], reply⟩ 0xFF).1 _ := hstands.push
  show Stands _ (rx ++ replies (listen respond) s (before ++ ([c, b1, b2, b3, b4, crc] ++ [0xFF])))
    (Lib.Fifo.after (listen respond) s (before ++ ([c, b1, b2, b3, b4, crc] ++ [0xFF]))) _
  rw [after_append, replies_append, hs.after, after_append, replies_append, hafter, hreplies, ← List.append_assoc,
    ← List.append_assoc]
  exact hpush

theorem Silent.command (h : Silent respond k tx rx s) {c crc : UInt8} {args : UInt32} (hc : c &&& 0xC0 = 0x40)
    {reply : List UInt8} (hr : respond k [c, (args >>> 24).toUInt8, (args >>> 16).toUInt8, (args >>> 8).toUInt8, args.toUInt8,
      crc] = (k', reply)) (p : SpiProg α) : ∃ j tx' rx' s', j ≤ 22 ∧ Loaded fifoDepth tx' rx' ∧
      Brings respond k' tx' rx' s' (Sd.idle j ++ reply) ∧
      Leads respond (sdSendCommand c args crc >>= fun _ => p) p tx rx s tx' rx' s' := by
  have h0 : Pressed respond k [] tx rx s := ⟨⟨tx, (List.append_nil tx).symm, h⟩, h.tx⟩
  obtain ⟨_, _, _, h1, l1⟩ := h0.push (by decide) c (.push (args >>> 24).toUInt8 (.push (args >>> 16).toUInt8
    (.push (args >>> 8).toUInt8 (.push args.toUInt8 (.push crc (.push 0xFF p))))))
  obtain ⟨_, _, _, h2, l2⟩ := h1.push (by simp [fifoDepth]) (args >>> 24).toUInt8 (.push (args >>> 16).toUInt8
    (.push (args >>> 8).toUInt8 (.push args.toUInt8 (.push crc (.push 0xFF p)))))
  obtain ⟨_, _, _, h3, l3⟩ := h2.push (by simp [fifoDepth]) (args >>> 16).toUInt8
    (.push (args >>> 8).toUInt8 (.push args.toUInt8 (.push crc (.push 0xFF p))))
  obtain ⟨_, _, _, h4, l4⟩ := h3.push (by simp [fifoDepth]) (args >>> 8).toUInt8
    (.push args.toUInt8 (.push crc (.push 0xFF p)))
  obtain ⟨_, _, _, h5, l5⟩ := h4.push (by simp [fifoDepth]) args.toUInt8 (.push crc (.push 0xFF p))
  obtain ⟨_, _, _, h6, l6⟩ := h5.push (by simp [fifoDepth]) crc (.push 0xFF p)
  obtain ⟨tx', rx', s', h7, l7⟩ := h6.push (by simp [fifoDepth]) 0xFF p
  obtain ⟨j, hj, hb⟩ := h7.brings hc hr
  refine ⟨j, tx', rx', s', hj, ⟨?_, h7.tx, ?_⟩, hb, fun _ _ _ _ hp => l1 _ _ _ _ (l2 _ _ _ _ (l3 _ _ _ _ (l4 _ _ _ _
    (l5 _ _ _ _ (l6 _ _ _ _ (l7 _ _ _ _ hp))))))⟩
  · obtain ⟨before, rfl, -⟩ := h7.split
    simp only [List.length_append, List.length_cons]
    omega
  · obtain ⟨before, -, hs⟩ := h7.split
    exact hs.rx

/-! ## Calls on a silent port -/

/-- From every silent port the prompt run of `p` results in `a`, the card goes from `k` to `k'` and
    the port is silent again. -/
def Serves (respond : κ → List UInt8 → κ × List UInt8) (k : κ) (p : SpiProg α) (a : α) (k' : κ) : Prop :=
  ∀ tx rx s, Silent respond k tx rx s → ∃ tx' rx' s',
    Prompt fifoDepth (listen respond) p tx rx s a tx' rx' s' ∧ Silent respond k' tx' rx' s'

theorem Serves.pure (a : α) : Serves respond k (Pure.pure a) a k := fun tx rx s h => ⟨tx, rx, s, .done, h⟩

theorem Serves.bind {p : SpiProg α} {f : α → SpiProg β} {a : α} {b : β} {k'' : κ} (hp : Serves respond k p a k')
    (hf : Serves respond k' (f a) b k'') : Serves respond k (p >>= f) b k'' := by
  intro tx rx s h
  obtain ⟨tx', rx', s', h1, hs'⟩ := hp tx rx s h
  obtain ⟨tx'', rx'', s'', h2, hs''⟩ := hf tx' rx' s' hs'
  exact ⟨tx'', rx'', s'', h1.bind h2, hs''⟩

theorem Serves.deassert {p : SpiProg α} {a : α} (h : Serves respond k p a k') :
    Serves respond k (deassertCS >>= fun _ => p) a k' := by
  intro tx rx s hs
  obtain ⟨tx', rx', s', hs', hlead⟩ := hs.push p
  obtain ⟨tx'', rx'', s'', hp, hs''⟩ := h tx' rx' s' hs'
  exact ⟨tx'', rx'', s'', hlead _ _ _ _ hp, hs''⟩

theorem serves_sendBytes_idle (n : Nat) : Serves respond k (sendBytes (List.replicate n 0xFF)) () k := by
  induction n with
  | zero => exact .pure ()
  | succ n ih => exact Serves.deassert ih

theorem Brings.silent (h : Brings respond k tx rx s []) (hl : Loaded fifoDepth tx rx) : Silent respond k tx rx s := by
  obtain ⟨hk, hc, ha⟩ := h
  have hidle : (after (listen respond) s tx).pending = [] ∧
      ∃ j, rx ++ replies (listen respond) s tx = Sd.idle j := by
    rcases ha with ha | ⟨hp, j, hj⟩
    · obtain ⟨hq, hp⟩ := List.append_eq_nil_iff.mp ha.symm
      exact ⟨hp, 0, hq⟩
    · exact ⟨hp, j, hj⟩
  obtain ⟨hp, j, hj⟩ := hidle
  have hlen := congrArg List.length hj
  rw [List.length_append, length_replies, Sd.idle, List.length_replicate] at hlen
  refine ⟨?_, by rw [hj, hlen], hl.tx, hl.rx⟩
  have heta : ∀ t : Link κ, t.card = k → t.command = [] → t.pending = [] → t = ⟨k, [], []⟩ := by
    rintro ⟨_, _, _⟩ rfl rfl rfl
    rfl
  exact heta _ hk hc hp

/-- From every port with `l` ahead the prompt run of `p` results in `a` and leaves a silent port. -/
def Meets (respond : κ → List UInt8 → κ × List UInt8) (k : κ) (l : List UInt8) (p : SpiProg α) (a : α) (k' : κ) : Prop :=
  ∀ tx rx s, Loaded fifoDepth tx rx → Brings respond k tx rx s l → ∃ tx' rx' s',
    Prompt fifoDepth (listen respond) p tx rx s a tx' rx' s' ∧ Silent respond k' tx' rx' s'

theorem Meets.read {p : SpiProg α} {f : α → SpiProg β} {a : α} {b : β} {l l' : List UInt8} (h : Reads 0xFF p l a l')
    (hf : Meets respond k l' (f a) b k') : Meets respond k l (p >>= f) b k' := by
  intro tx rx s hl hb
  obtain ⟨tx', rx', s', h1, hl', hb'⟩ := serve_reads h hl hb
  obtain ⟨tx'', rx'', s'', h2, hs⟩ := hf tx' rx' s' hl' hb'
  exact ⟨tx'', rx'', s'', h1.bind h2, hs⟩

/-- Once all is read. -/
theorem Meets.rest {p : SpiProg α} {a : α} (h : Serves respond k p a k') : Meets respond k [] p a k' :=
  fun tx rx s hl hb => h tx rx s (Brings.silent hb hl)

theorem Serves.command {c crc : UInt8} {args : UInt32} {k'' : κ} (hc : c &&& 0xC0 = 0x40) {reply : List UInt8}
    (hr : respond k [c, (args >>> 24).toUInt8, (args >>> 16).toUInt8, (args >>> 8).toUInt8, args.toUInt8, crc] = (k', reply))
    {p : SpiProg α} {a : α} (hp : ∀ j ≤ 22, Meets respond k' (Sd.idle j ++ reply) p a k'') :
    Serves respond k (sdSendCommand c args crc >>= fun _ => p) a k'' := by
  intro tx rx s h
  obtain ⟨j, tx', rx', s', hj, hl, hb, hlead⟩ := h.command hc hr p
  obtain ⟨tx'', rx'', s'', hp, hs⟩ := hp j hj tx' rx' s' hl hb
  exact ⟨tx'', rx'', s'', hlead _ _ _ _ hp, hs⟩

end

/-! ## The loops of the driver -/

section
variable {l : List UInt8}

/-- A loop that polls until a byte other than 0xFF comes. -/
theorem reads_poll (loop : Nat → SpiProg α) (out : UInt8 → Nat → α)
    (hloop : ∀ t, loop (t + 1) = .pop fun r => .push 0xFF (if r = 0xFF ∧ 0 < t then loop t else pure (out r t)))
    {r : UInt8} (hr : r ≠ 0xFF) : ∀ {j timeout : Nat}, j < timeout →
    Reads 0xFF (loop timeout) (idle j ++ r :: l) (out r (timeout - (j + 1))) l := by
  intro j
  induction j with
  | zero =>
    intro timeout ht
    obtain ⟨timeout, rfl⟩ := Nat.exists_eq_add_one_of_ne_zero (show timeout ≠ 0 by omega)
    rw [hloop]
    refine .turn ?_
    rw [if_neg fun h => hr h.1]
    exact .done
  | succ j ih =>
    intro timeout ht
    obtain ⟨timeout, rfl⟩ := Nat.exists_eq_add_one_of_ne_zero (show timeout ≠ 0 by omega)
    have h := @ih timeout (by omega)
    rw [show timeout - (j + 1) = timeout + 1 - (j + 1 + 1) by omega] at h
    rw [hloop]
    refine Reads.turn (r := 0xFF) ?_
    rw [if_pos ⟨rfl, by omega⟩]
    exact h

theorem reads_readR1Response {r : UInt8} (hr : r ≠ 0xFF) {j timeout : Nat} (h : j < timeout) :
    Reads 0xFF (readR1Response timeout) (idle j ++ r :: l) r l :=
  reads_poll readR1Response (fun r _ => r) (fun _ => rfl) hr h

theorem reads_readToken {r : UInt8} (hr : r ≠ 0xFF) {j timeout : Nat} (h : j < timeout) :
    Reads 0xFF (readToken timeout) (idle j ++ r :: l) (r, timeout - (j + 1)) l :=
  reads_poll readToken Prod.mk (fun _ => rfl) hr h

theorem reads_readBytes (bs : List UInt8) : Reads 0xFF (readBytes bs.length) (bs ++ l) bs l := by
  induction bs with
  | nil => exact .done
  | cons b bs ih => exact .turn (ih.bind .done)

end

end OpenGpos.Sd
