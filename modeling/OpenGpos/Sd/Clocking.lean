/-
  OpenGpos.Sd.Clocking — which calls of the SD driver may wait for a byte that was never
  clocked. A read that is followed by a dummy byte keeps the number of bytes under way, and
  every command starts with pushes, so all calls but one keep at least one byte under way.
  `sdWriteBlock` polls for the data response without pushing anything: with the data its
  bytes overran the receive queue, and after what is left there the poll never ends.
-/
import Mathlib
import OpenGpos.Sd.Driver

namespace OpenGpos.Sd

open OpenGpos.Lib.Fifo

inductive Call where
  | sdInit
  | sdReadBlock (blockAddress : UInt32)
  | sdReadPartialBlock (blockNumber : UInt32) (offset length : UInt16)
  | sdWriteBlock (blockAddress : UInt32) (dataBuffer : Nat → UInt8)
  | sdShutdown

def Call.prog : Call → SpiProg Unit
  | .sdInit => do let _ ← Sd.sdInit
  | .sdReadBlock blockAddress => do let _ ← Sd.sdReadBlock blockAddress
  | .sdReadPartialBlock blockNumber offset length => do let _ ← Sd.sdReadPartialBlock blockNumber offset length
  | .sdWriteBlock blockAddress dataBuffer => do let _ ← Sd.sdWriteBlock blockAddress dataBuffer
  | .sdShutdown => do let _ ← Sd.sdShutdown

/-- The calls one after the other. -/
def session : List Call → SpiProg Unit
  | [] => pure ()
  | call :: calls => do
    call.prog
    session calls

/-! ## Paced programs -/

/-- From `lo` bytes under way on, the program never waits in vain, and it leaves at least one
    and no fewer than it found. -/
structure Keeps {α : Type} (lo : Nat) (p : SpiProg α) : Prop where
  owed : ∀ n, lo ≤ n → n ≤ fifoDepth → Owed fifoDepth (fun _ m => max 1 n ≤ m ∧ m ≤ fifoDepth) p n

section
variable {α β : Type} {lo : Nat}

theorem Keeps.bind {p : SpiProg α} {f : α → SpiProg β} (hp : Keeps lo p) (hf : ∀ a, Keeps 1 (f a)) : Keeps lo (p >>= f) :=
  ⟨fun n hl hn => (hp.owed n hl hn).bind fun a m hm =>
    ((hf a).owed m (by omega) hm.2).conseq fun _ _ hm' => ⟨by omega, hm'.2⟩⟩

theorem Keeps.pure (a : α) : Keeps 1 (Pure.pure a : SpiProg α) := ⟨fun _ hl hn => ⟨by omega, hn⟩⟩

theorem Keeps.mono {p : SpiProg α} (h : Keeps 0 p) : Keeps 1 p := ⟨fun n _ hn => h.owed n (Nat.zero_le n) hn⟩

theorem Keeps.send {b : UInt8} {p : SpiProg α} (h : Keeps 1 p) : Keeps 0 (.push b p) := by
  refine ⟨fun n _ hn => ?_⟩
  exact (h.owed _ (by unfold fifoDepth; omega) (Nat.min_le_left ..)).conseq fun _ _ hm => ⟨by omega, hm.2⟩

/-- A read with its dummy byte. -/
theorem Keeps.turn {b : UInt8} {k : UInt8 → SpiProg α} (h : ∀ r, Keeps 1 (k r)) : Keeps 1 (.pop fun r => .push b (k r)) := by
  refine ⟨fun n hl hn => ⟨hl, fun r => ?_⟩⟩
  exact ((h r).owed _ (by unfold fifoDepth; omega) (Nat.min_le_left ..)).conseq fun _ _ hm => ⟨by omega, hm.2⟩

theorem Keeps.ite {c : Prop} [Decidable c] {p q : SpiProg α} (hp : Keeps lo p) (hq : Keeps lo q) :
    Keeps lo (if c then p else q) := by
  split
  · exact hp
  · exact hq

theorem keeps_deassertCS : Keeps 0 deassertCS := .send (.pure ())

/-- A deassert before the end of a call. -/
theorem Keeps.deassert {p : SpiProg α} (h : Keeps 1 p) : Keeps 1 (deassertCS >>= fun _ => p) :=
  (keeps_deassertCS.bind fun _ => h).mono

theorem keeps_sdSendCommand (command : UInt8) (args : UInt32) (crc : UInt8) : Keeps 0 (sdSendCommand command args crc) :=
  .send (Keeps.send (Keeps.send (Keeps.send (Keeps.send (Keeps.send (Keeps.send (.pure ())).mono).mono).mono).mono).mono).mono

theorem keeps_readR1Response (timeout : Nat) : Keeps 1 (readR1Response timeout) := by
  induction timeout with
  | zero => exact .pure _
  | succ timeout ih => exact .turn fun r => .ite ih (.pure r)

theorem keeps_readBytes (count : Nat) : Keeps 1 (readBytes count) := by
  induction count with
  | zero => exact .pure _
  | succ count ih => exact .turn fun r => ih.bind fun bs => .pure (r :: bs)

theorem keeps_readToken (timeout : Nat) : Keeps 1 (readToken timeout) := by
  induction timeout with
  | zero => exact .pure _
  | succ timeout ih => exact .turn fun r => .ite ih (.pure (r, timeout))

theorem keeps_sendBytes (bs : List UInt8) : Keeps 1 (sendBytes bs) := by
  induction bs with
  | nil => exact .pure ()
  | cons b bs ih => exact (Keeps.send ih).mono

/-- A command and its R1. -/
theorem Keeps.command {command : UInt8} {args : UInt32} {crc : UInt8} {timeout : Nat} {f : UInt8 → SpiProg α}
    (h : ∀ r, Keeps 1 (f r)) : Keeps 0 (sdSendCommand command args crc >>= fun _ => readR1Response timeout >>= f) :=
  (keeps_sdSendCommand command args crc).bind fun _ => (keeps_readR1Response timeout).bind h

theorem keeps_readDataBlock (timeoutVal : Nat) : Keeps 1 (readDataBlock timeoutVal) := by
  refine (keeps_readToken timeoutVal).bind fun ⟨token, timeout⟩ => ?_
  apply Keeps.ite (.pure _)
  apply Keeps.ite (.pure _)
  exact (keeps_readBytes _).bind fun buffer => (keeps_readBytes 2).bind fun _ => .pure (true, buffer)

theorem keeps_readDataBlockPartial (startOffset count : UInt16) (timeoutVal : Nat) :
    Keeps 1 (readDataBlockPartial startOffset count timeoutVal) := by
  refine (keeps_readToken timeoutVal).bind fun ⟨token, timeout⟩ => ?_
  apply Keeps.ite (.pure _)
  refine (keeps_readBytes startOffset.toNat).bind fun _ => ?_
  refine (keeps_readBytes count.toNat).bind fun buffer => ?_
  generalize (bytesToDiscard startOffset count).toNat = rest
  exact (keeps_readBytes rest).bind fun _ => .pure (true, buffer)

theorem keeps_sdReadBlock (blockAddress : UInt32) : Keeps 0 (sdReadBlock blockAddress) := by
  refine .command fun _ => .ite (.deassert (.pure _)) ?_
  exact (keeps_readDataBlock 0xFFFF).bind fun r => .deassert (.pure r)

theorem keeps_sdReadPartialBlock (blockNumber : UInt32) (offset length : UInt16) :
    Keeps 0 (sdReadPartialBlock blockNumber offset length) := by
  refine .command fun _ => .ite (.deassert (.pure _)) ?_
  exact (keeps_readDataBlockPartial offset length 0xFFFF).bind fun r => .deassert (.pure r)

theorem keeps_sdShutdown : Keeps 0 sdShutdown := .command fun _ => .ite (.deassert (.pure _)) (.pure _)

theorem keeps_acmd41 (timeout : Nat) : Keeps 1 (acmd41 timeout) := by
  induction timeout with
  | zero => exact .pure _
  | succ timeout ih =>
    refine Keeps.mono (.command fun _ => .deassert (.ite (.pure _) ?_))
    exact Keeps.mono (.command fun _ => .deassert (.ite (.pure _) ih))

theorem keeps_readOcr : Keeps 0 readOcr :=
  .command fun _ => .ite ((keeps_readBytes 4).bind fun _ => .ite (.deassert (.pure _)) (.pure _)) (.deassert (.pure _))

theorem keeps_sdInit : Keeps 0 sdInit := by
  refine Keeps.bind (p := sendBytes (List.replicate 10 0xFF)) (Keeps.send (keeps_sendBytes _)) fun _ => ?_
  refine Keeps.mono (.command fun _ => .ite (.deassert (.pure _)) ?_)
  refine Keeps.mono (.command fun _ => .ite ?_ (.deassert (.pure _)))
  refine (keeps_readBytes 4).bind fun _ => .deassert (.ite ?_ (.pure _))
  exact (keeps_acmd41 5000).bind fun _ => .ite keeps_readOcr.mono (.pure _)

end

/-! ## Sessions without a write -/

theorem Call.keeps {call : Call} (h : ∀ blockAddress dataBuffer, call ≠ .sdWriteBlock blockAddress dataBuffer) :
    Keeps 0 call.prog := by
  cases call with
  | sdInit => exact keeps_sdInit.bind fun _ => .pure ()
  | sdReadBlock a => exact (keeps_sdReadBlock a).bind fun _ => .pure ()
  | sdReadPartialBlock a o l => exact (keeps_sdReadPartialBlock a o l).bind fun _ => .pure ()
  | sdWriteBlock a buf => exact absurd rfl (h a buf)
  | sdShutdown => exact keeps_sdShutdown.bind fun _ => .pure ()

theorem owed_session {calls : List Call} (h : ∀ blockAddress dataBuffer, Call.sdWriteBlock blockAddress dataBuffer ∉ calls) :
    ∀ n ≤ fifoDepth, Owed fifoDepth (fun _ _ => True) (session calls) n := by
  induction calls with
  | nil => exact fun _ _ => trivial
  | cons call calls ih =>
    intro n hn
    have hc : Keeps 0 call.prog := Call.keeps fun a buf he => h a buf (he ▸ List.mem_cons_self)
    refine (hc.owed n (Nat.zero_le n) hn).bind fun _ m hm => ?_
    exact ih (fun a buf hm => h a buf (List.mem_cons_of_mem _ hm)) m hm.2

/-! ## A write -/

/-- A card that answers with the bytes of a stream, whatever it is sent. -/
def scripted (s : Nat → UInt8) (_ : UInt8) : (Nat → UInt8) × UInt8 := (fun i => s (i + 1), s 0)

def streamCons (r : UInt8) (s : Nat → UInt8) : Nat → UInt8
  | 0 => r
  | i + 1 => s i

/-- First `m` bytes of 0xFF. -/
def delay (m : Nat) (s : Nat → UInt8) : Nat → UInt8 := (streamCons 0xFF)^[m] s

def silence : Nat → UInt8 := fun _ => 0xFF

theorem delay_succ (m : Nat) (s : Nat → UInt8) : delay (m + 1) s = streamCons 0xFF (delay m s) := Function.iterate_succ_apply' ..

theorem delay_silence (m : Nat) : delay m silence = silence := by
  have h : streamCons 0xFF silence = silence := by
    funext i
    cases i <;> rfl
  exact Function.iterate_fixed h m

section
variable {α : Type}

/-- Every byte shifted at once and answered with 0xFF: `Owed` counts exactly. -/
theorem owed_run {Q : α → Nat → Prop} {p : SpiProg α} : ∀ {n : Nat}, n ≤ fifoDepth → Owed fifoDepth Q p n →
    ∃ m a n', Q a n' ∧ n' ≤ fifoDepth ∧ ∀ s, Steps fifoDepth scripted ⟨p, [], idle n, delay m s⟩ ⟨.done a, [], idle n', s⟩ := by
  induction p with
  | done a => exact fun hn h => ⟨0, a, _, h, hn, fun s => .refl⟩
  | push b k ih =>
    intro n hn h
    obtain ⟨m, a, n', hq, hn', hs⟩ := ih (Nat.min_le_left ..) h
    refine ⟨m + 1, a, n', hq, hn', fun s => ?_⟩
    refine .trans ?_ (hs s)
    rw [delay_succ, ← enqueue_idle hn]
    exact Steps.push_shift (by decide)
  | pop k ih =>
    intro n hn h
    obtain ⟨n, rfl⟩ := Nat.exists_eq_add_one_of_ne_zero (show n ≠ 0 by have := h.1; omega)
    obtain ⟨m, a, n', hq, hn', hs⟩ := ih 0xFF (by omega) (h.2 0xFF)
    exact ⟨m, a, n', hq, hn', fun s => .head .pop (hs s)⟩

theorem Keeps.run {lo n : Nat} {p : SpiProg α} (h : Keeps lo p) (hl : lo ≤ n) (hn : n ≤ fifoDepth) :
    ∃ m a n', 1 ≤ n' ∧ n' ≤ fifoDepth ∧ ∀ s, Steps fifoDepth scripted ⟨p, [], idle n, delay m s⟩ ⟨.done a, [], idle n', s⟩ := by
  obtain ⟨m, a, n', hq, -, hs⟩ := owed_run hn (h.owed n hl hn)
  exact ⟨m, a, n', by omega, hq.2, hs⟩

/-- The R1 of the card, behind what was left in the queue. -/
theorem run_readR1Response : ∀ {j i timeout : Nat}, j < timeout → j + 1 + i ≤ fifoDepth → 
    Steps fifoDepth scripted ⟨readR1Response timeout, [], idle j ++ 0x00 :: idle i, silence⟩
      ⟨.done 0x00, [], idle (i + j + 1), silence⟩ := by
  intro j
  induction j with
  | zero =>
    intro i timeout ht hl
    obtain ⟨timeout, rfl⟩ := Nat.exists_eq_add_one_of_ne_zero (show timeout ≠ 0 by omega)
    refine .head .pop (.trans (Steps.push_shift (by decide)) ?_)
    have he := @enqueue_idle i (by omega)
    rw [Nat.min_eq_right (by omega)] at he
    rw [show enqueue fifoDepth (idle i) (scripted silence 0xFF).2 = idle (i + 1) from he]
    exact .refl
  | succ j ih =>
    intro i timeout ht hl
    obtain ⟨timeout, rfl⟩ := Nat.exists_eq_add_one_of_ne_zero (show timeout ≠ 0 by omega)
    refine .head .pop (.trans (Steps.push_shift (by decide)) ?_)
    have he : enqueue fifoDepth (idle j ++ 0x00 :: idle i) 0xFF = idle j ++ 0x00 :: idle (i + 1) := by
      unfold enqueue idle
      rw [if_pos (by simp; omega), List.replicate_succ']
      simp
    show Steps fifoDepth scripted ⟨if (0xFF : UInt8) = 0xFF ∧ 0 < timeout then _ else _, [], enqueue fifoDepth (idle j ++ 0x00 :: idle i) 0xFF, silence⟩ _
    rw [he, if_pos ⟨rfl, by omega⟩]
    have := @ih (i + 1) timeout (by omega) (by omega)
    rwa [show i + (j + 1) + 1 = i + 1 + j + 1 by omega]

/-- The first read takes a byte that nobody sent, and its dummy byte brings R1. -/
theorem run_response {n timeout : Nat} (h1 : 1 ≤ n) (hn : n ≤ fifoDepth) (ht : fifoDepth < timeout) :
    Steps fifoDepth scripted ⟨readR1Response timeout, [], idle n, streamCons 0x00 silence⟩ ⟨.done 0x00, [], idle n, silence⟩ := by
  obtain ⟨j, rfl⟩ := Nat.exists_eq_add_one_of_ne_zero (show n ≠ 0 by omega)
  obtain ⟨timeout, rfl⟩ := Nat.exists_eq_add_one_of_ne_zero (show timeout ≠ 0 by omega)
  have he : enqueue fifoDepth (idle j) 0x00 = idle j ++ 0x00 :: idle 0 := if_pos (by rw [idle, List.length_replicate]; omega)
  have hr := @run_readR1Response j 0 timeout (by omega) (by omega)
  rw [← he, Nat.zero_add] at hr
  refine .head .pop (.trans (Steps.push_shift (by decide)) ?_)
  show Steps _ _ ⟨if (0xFF : UInt8) = 0xFF ∧ 0 < timeout then _ else _, _, _, _⟩ _
  rw [if_pos ⟨rfl, by omega⟩]
  exact hr

/-- The poll for the data response eats up what is left and waits. -/
theorem run_readDataResponse (s : Nat → UInt8) : ∀ {n t : Nat}, n < t →
    ∃ c, Steps fifoDepth scripted ⟨readDataResponse t, [], idle n, s⟩ c ∧ Waits c := by
  intro n
  induction n with
  | zero =>
    intro t ht
    obtain ⟨t, rfl⟩ := Nat.exists_eq_add_one_of_ne_zero (show t ≠ 0 by omega)
    exact ⟨_, .refl, ⟨_, rfl⟩, rfl, rfl⟩
  | succ n ih =>
    intro t ht
    obtain ⟨t, rfl⟩ := Nat.exists_eq_add_one_of_ne_zero (show t ≠ 0 by omega)
    obtain ⟨c, hs, hw⟩ := @ih t (by omega)
    exact ⟨c, .head .pop hs, hw⟩

end

theorem keeps_sendDataBlock (dataBuffer : Nat → UInt8) : Keeps 0 (sendDataBlock dataBuffer) := by
  unfold sendDataBlock
  generalize (List.range sdBlockSize).map dataBuffer = bs
  refine Keeps.send ((keeps_sendBytes bs).bind fun _ => ?_)
  exact Keeps.mono (.send (Keeps.mono (.send (.pure ()))))

/-- The card answers the command and then stays silent. -/
theorem sdWriteBlock_waits (blockAddress : UInt32) (dataBuffer : Nat → UInt8) {n : Nat} (hn : n ≤ fifoDepth) :
    ∃ s c, Steps fifoDepth scripted ⟨sdWriteBlock blockAddress dataBuffer, [], idle n, s⟩ c ∧ Waits c := by
  obtain ⟨m, _, n1, h1, hn1, hcmd⟩ := (keeps_sdSendCommand 0x58 blockAddress 0x01).run (Nat.zero_le n) hn
  have hr1 := @run_response n1 0xFF h1 hn1 (by decide)
  obtain ⟨m', _, n2, -, hn2, hdata⟩ := (keeps_sendDataBlock dataBuffer).run (Nat.zero_le n1) hn1
  have hdata := hdata silence
  rw [delay_silence] at hdata
  obtain ⟨c, hpoll, hw⟩ := run_readDataResponse silence (show n2 < 1000 by unfold fifoDepth at hn2; omega)
  refine ⟨delay m (streamCons 0x00 silence), ?_⟩
  exact ⟨_, .trans ((hcmd _).bind _) (.trans (hr1.bind _) (.trans (hdata.bind _) (hpoll.bind _))), hw.bind _⟩

/-! ## Sessions -/

theorem session_waits {calls : List Call} (h : ∃ blockAddress dataBuffer, Call.sdWriteBlock blockAddress dataBuffer ∈ calls) :
    ∀ n ≤ fifoDepth, ∃ s c, Steps fifoDepth scripted ⟨session calls, [], idle n, s⟩ c ∧ Waits c := by
  induction calls with
  | nil =>
    obtain ⟨_, _, hm⟩ := h
    cases hm
  | cons call calls ih =>
    intro n hn
    by_cases hw : ∃ blockAddress dataBuffer, call = .sdWriteBlock blockAddress dataBuffer
    · obtain ⟨a, buf, rfl⟩ := hw
      obtain ⟨s, c, hs, hc⟩ := sdWriteBlock_waits a buf hn
      exact ⟨s, _, (hs.bind _).bind _, (hc.bind _).bind _⟩
    · have hk : Keeps 0 call.prog := Call.keeps fun a buf he => hw ⟨a, buf, he⟩
      obtain ⟨m, _, n', -, hn', hs⟩ := hk.run (Nat.zero_le n) hn
      have hin : ∃ blockAddress dataBuffer, Call.sdWriteBlock blockAddress dataBuffer ∈ calls := by
        obtain ⟨a, buf, hm⟩ := h
        rcases List.mem_cons.mp hm with he | hm
        · exact absurd ⟨a, buf, he.symm⟩ hw
        · exact ⟨a, buf, hm⟩
      obtain ⟨s, c, hr, hc⟩ := ih hin n' hn'
      exact ⟨delay m s, c, .trans ((hs s).bind _) hr, hc⟩

/-- From power-up, no card and no timing make the driver wait for a byte that was never
    clocked exactly if it never writes a block. -/
theorem never_waits_iff (calls : List Call) :
    (∀ (σ : Type) (card : σ → UInt8 → σ × UInt8) (s : σ) (c : Config UInt8 σ Unit),
      Steps fifoDepth card ⟨session calls, [], [], s⟩ c → ¬Waits c) ↔
    ∀ blockAddress dataBuffer, Call.sdWriteBlock blockAddress dataBuffer ∉ calls := by
  constructor
  · intro h a buf hm
    obtain ⟨s, c, hs, hc⟩ := session_waits ⟨a, buf, hm⟩ 0 (Nat.zero_le _)
    exact h _ scripted s c hs hc
  · intro h σ card s c hs
    exact (owed_session h 0 (Nat.zero_le _)).not_waits (Nat.zero_le _) (Nat.zero_le _) hs

/-- One write of zeroes to block 0, by a card that accepts the command. -/
theorem write_waits : ∃ (s : Nat → UInt8) (c : Config UInt8 (Nat → UInt8) Unit),
    Steps fifoDepth scripted ⟨session [.sdWriteBlock 0 fun _ => 0], [], [], s⟩ c ∧ Waits c :=
  session_waits ⟨0, fun _ => 0, List.mem_cons_self⟩ 0 (Nat.zero_le _)

end OpenGpos.Sd
