/-
  OpenGpos.Dma.Plan — what a program that calls dma.c may count on while the channels copy: the memory
  as it will be, and for each channel the transfer prepared and the one begun and not yet waited for. A
  call is permitted if its transfer does not chain and keeps apart from those under way, and if its
  loads and stores do. `At` says that the block is where the plan says; no move of the block changes
  that (`At.stable`), and from there each channel comes to rest (`comes_to_rest`).
-/
import OpenGpos.Dma.Block

namespace OpenGpos.Dma

open OpenGpos.Lib OpenGpos.Lib.BitFields OpenGpos.Lib.Bytes OpenGpos.Lib.Mmio OpenGpos.Lib.Transfers
open OpenGpos.Kernel.Startup (DmaChannel dmaCtrlEn dmaCtrlDataSize1Byte dmaCtrlIncrRead dmaCtrlIncrWrite dmaCtrlChainTo
  dmaCtrlTreqSel dmaTreqPermanent)

/-! ## Calls -/

inductive Call where
  | configure (channel : Channel) (config src dst n : UInt32) (start : Bool)
  | channelStart (channel : Channel)
  | transferStart (src dst n : UInt32) (channel : Channel)
  | await (channel : Channel)
  | memcpy (destination source num : UInt32)
  | load (a : UInt32)
  | store (a : UInt32) (v : UInt8)

/-- The call, and the byte it brings. -/
def Call.program : Call → DmaProg (List UInt8)
  | configure channel config src dst n start => do dmaChannelConfigure channel config src dst n start; pure []
  | channelStart channel => do dmaChannelStart channel; pure []
  | transferStart src dst n channel => do dmaTransferStart src dst n channel; pure []
  | await channel => do dmaTransferAwait channel; pure []
  | memcpy destination source num => do let _ ← Dma.memcpy destination source num; pure []
  | load a => do let v ← .read (.mem a); pure [v.toUInt8]
  | store a v => do .write (.mem a) v.toUInt32; pure []

def program : List Call → DmaProg (List UInt8)
  | [] => pure []
  | call :: calls => do
    let l ← call.program
    let l' ← program calls
    pure (l ++ l')

/-! ## The plan -/

structure Plan where
  mem : Mem
  ready : Channel → Option (Job Nat)
  pending : Channel → Option (Job Nat)

namespace Plan

/-- Nothing prepared, nothing begun. -/
def idle (m : Mem) : Plan := ⟨m, fun _ => none, fun _ => none⟩

/-- The job can run beside those of the other channels. -/
def Free (p : Plan) (channel : Channel) (j : Job Nat) : Prop :=
  Clean j ∧ ∀ d k, d ≠ channel → p.pending d = some k → Apart j k

def settled (p : Plan) (channel : Channel) : Plan := { p with pending := Function.update p.pending channel none }

def disarmed (p : Plan) (channel : Channel) : Plan := { p with ready := Function.update p.ready channel none }

def armed (p : Plan) (channel : Channel) (j : Job Nat) : Plan :=
    { p with ready := Function.update p.ready channel (some j) }

def begun (p : Plan) (channel : Channel) (j : Job Nat) : Plan :=
  ⟨perform p.mem j, Function.update p.ready channel none, Function.update p.pending channel (some j)⟩

end Plan

def NoChain (config : UInt32) (channel : Channel) : Prop := (decode config).chainTo.toNat = channel

def plainJob (src dst n : UInt32) (channel : Channel) : Job Nat :=
  jobOf (dmaGetDefaultConfig (UInt8.ofNat channel)) src dst n

namespace Call

def Permitted (p : Plan) : Call → Prop
  | configure channel config src dst n start =>
    NoChain config channel ∧ (start = true → p.Free channel (jobOf config src dst n))
  | channelStart channel => p.pending channel = none ∧ ∃ j, p.ready channel = some j ∧ p.Free channel j
  | transferStart src dst n channel => p.Free channel (plainJob src dst n channel)
  | await _ => True
  | memcpy destination source num => p.Free 0 (plainJob source destination num 0)
  | load a => ∀ d k, p.pending d = some k → ¬Writes k a.toNat
  | store a _ => ∀ d k, p.pending d = some k → ¬Reads k a.toNat ∧ ¬Writes k a.toNat

def after (p : Plan) : Call → Plan
  | configure channel config src dst n start =>
    if start then p.begun channel (jobOf config src dst n)
    else (p.settled channel).armed channel (jobOf config src dst n)
  | channelStart channel =>
    match p.ready channel with
    | some j => p.begun channel j
    | none => p
  | transferStart src dst n channel => p.begun channel (plainJob src dst n channel)
  | await channel => p.settled channel
  | memcpy destination source num => (p.begun 0 (plainJob source destination num 0)).settled 0
  | load _ => p
  | store a v => { p with mem := Function.update p.mem a.toNat v }

def answer (p : Plan) : Call → List UInt8
  | load a => [p.mem a.toNat]
  | _ => []

end Call

/-- Each call is permitted where it is made. -/
def AllPermitted : Plan → List Call → Prop
  | _, [] => True
  | p, call :: calls => call.Permitted p ∧ AllPermitted (call.after p) calls

def planned (p : Plan) (calls : List Call) : Plan := calls.foldl Call.after p

def answers : Plan → List Call → List UInt8
  | _, [] => []
  | p, call :: calls => call.answer p ++ answers (call.after p) calls

/-! ## The control register -/

theorem or_and_self (x m : UInt32) : (x ||| m) &&& m = m := by
  apply UInt32.toBitVec_inj.mp
  ext i hi
  simp only [UInt32.toBitVec_and, UInt32.toBitVec_or, BitVec.getElem_and, BitVec.getElem_or]
  cases m.toBitVec[i] <;> simp

theorem ctrl_busy (b : Block) (channel : Channel) : busyBit (b.ctrl channel) = b.busy channel := by
  unfold busyBit Block.ctrl
  cases b.busy channel with
  | false =>
    have h : ((b.channels channel).ctrl &&& ~~~dmaCtrlBusy) &&& dmaCtrlBusy = 0 := by
      rw [UInt32.and_assoc, show ~~~dmaCtrlBusy &&& dmaCtrlBusy = 0 by decide, UInt32.and_zero]
    simp [h]
  | true =>
    simp only [if_true, or_and_self]
    decide

theorem en_and (config : UInt32) : (config ||| dmaCtrlEn) &&& dmaCtrlEn ≠ 0 := by
  rw [or_and_self]
  decide

theorem or_en (config : UInt32) : config ||| dmaCtrlEn = putField config 0 1 1 := by
  apply UInt32.toBitVec_inj.mp
  apply BitVec.eq_of_getLsbD_eq
  intro i hi
  rw [putField_toBitVec, getLsbD_put, UInt32.toBitVec_or, BitVec.getLsbD_or]
  rcases i with _ | i
  · simp [dmaCtrlEn]
  · simp [dmaCtrlEn]

theorem jobOf_en (config src dst n : UInt32) : jobOf (config ||| dmaCtrlEn) src dst n = jobOf config src dst n := by
  have hl : ∃ low, decode (config ||| dmaCtrlEn) = { decode config with low := low } := by
    refine ⟨_, Fields.ext rfl ?_ ?_ ?_ ?_ ?_ ?_ ?_ ?_⟩ <;> rw [or_en] <;>
      simp (disch := omega) [decode, field_put_apart]
  obtain ⟨low, hl⟩ := hl
  have hb : ∀ (k r w : Nat),
      ({ decode config with low := low } : Fields).beats k r w = (decode config).beats k r w := by
    intro k
    induction k with
    | zero => exact fun _ _ => rfl
    | succ k ih => exact fun r w => congrArg _ (ih _ _)
  rw [jobOf, hl, hb, jobOf]

theorem noChain_en {config : UInt32} {channel : Channel} (h : NoChain config channel) :
    NoChain (config ||| dmaCtrlEn) channel := by
  rw [NoChain, or_en]
  simpa (disch := omega) [NoChain, decode, field_put_apart] using h

theorem trigger_only (b : Block) (channel : Channel) :
    (List.finRange 12).foldl (Block.triggerOf ((1 : UInt32) <<< (UInt32.ofNat channel &&& 0b1111))) b =
    b.trigger channel := by
  have h : ∀ d : Channel,
      ((1 : UInt32) <<< (UInt32.ofNat channel &&& 0b1111)).toBitVec.getLsbD d = decide (d = channel) := by
    revert channel
    decide
  have hf : ∀ (l : List Channel) (b : Block), l.Nodup →
      l.foldl (Block.triggerOf ((1 : UInt32) <<< (UInt32.ofNat channel &&& 0b1111))) b =
        if channel ∈ l then b.trigger channel else b := by
    intro l
    induction l with
    | nil => simp
    | cons d l ih =>
      intro b hn
      rw [List.foldl_cons, ih _ (List.nodup_cons.mp hn).2, Block.triggerOf, h d]
      by_cases hd : d = channel
      · subst hd
        simp [(List.nodup_cons.mp hn).1]
      · simp [hd, Ne.symm hd]
  rw [hf _ _ (List.nodup_finRange 12), if_pos (List.mem_finRange channel)]

theorem default_eq (channel : Channel) : dmaCtrlDataSize1Byte ||| dmaCtrlIncrRead ||| dmaCtrlIncrWrite |||
    dmaCtrlChainTo (UInt32.ofNat channel) ||| dmaCtrlTreqSel dmaTreqPermanent =
      dmaGetDefaultConfig (UInt8.ofNat channel) := by
  revert channel
  decide

theorem noChain_default (channel : Channel) : NoChain (dmaGetDefaultConfig (UInt8.ofNat channel)) channel := by
  rw [NoChain, decode_default]
  revert channel
  decide

/-! ## What holds at all times -/

/-- A trigger begins the job `j`. -/
structure Armed (c : DmaChannel) (channel : Channel) (j : Job Nat) : Prop where
  enabled : c.ctrl &&& dmaCtrlEn ≠ 0
  alone : NoChain c.ctrl channel
  job : jobOf c.ctrl c.readAddr c.writeAddr c.transCount = j

/-- The block is where the plan says, and its registers as `q` does. -/
structure At (p : Plan) (q : (Channel → DmaChannel) → Prop) (b : Block) : Prop where
  fine : b.misused = false
  settles : Settles p.mem b.engines
  within : ∀ d k, p.pending d = some k →
    (∀ a, (b.engines.work d).Reads a → Reads k a) ∧ ∀ a, (b.engines.work d).Writes a → Writes k a
  idle : ∀ d, p.pending d = none → b.busy d = false
  rest : ∀ d, b.busy d = false → b.engines.work d = Work.none
  alone : ∀ d, b.busy d = true → NoChain (b.channels d).ctrl d
  ready : ∀ d j, p.ready d = some j → Armed (b.channels d) d j
  regs : q b.channels

/-- Nothing is known of the registers. -/
def anyRegs (_ : Channel → DmaChannel) : Prop := True

theorem finish_alone {b : Block} {channel : Channel} (h : NoChain (b.channels channel).ctrl channel) :
    b.finish channel = { b with busy := Function.update b.busy channel false } := by
  unfold Block.finish
  rw [NoChain] at h
  simp only [h, channel.isLt, dite_true, if_true]

namespace At

variable {p : Plan} {q q' : (Channel → DmaChannel) → Prop} {b : Block}

theorem stable : Stable dma (At p q) := by
  intro b b' h hm
  cases hm with
  | @beat e hs =>
    obtain ⟨c, hother, hreads, hwrites, -⟩ := hs.shrinks h.settles.clean
    refine ⟨h.fine, h.settles.step hs, ?_, h.idle, ?_, h.alone, h.ready, h.regs⟩
    · intro d k hk
      have hw := h.within d k hk
      by_cases hd : d = c
      · subst hd
        exact ⟨fun a ha => hw.1 a (hreads a ha), fun a ha => hw.2 a (hwrites a ha)⟩
      · dsimp only
        rw [hother d hd]
        exact hw
    · intro d hd
      have hn := h.rest d hd
      by_cases hdc : d = c
      · -- an engine with nothing to do takes no step
        subst hdc
        cases hs with
        | @fetch c' l b' j hc' =>
          by_cases hcd : d = c'
          · rw [← hcd, hn] at hc'; cases hc'
          · simpa [Function.update_of_ne hcd] using hn
        | @deliver c' a v l j hc' =>
          by_cases hcd : d = c'
          · rw [← hcd, hn] at hc'; cases hc'
          · simpa [Function.update_of_ne hcd] using hn
      · dsimp only
        rw [hother d hdc]
        exact hn
  | @finish c hb hw =>
    rw [finish_alone (h.alone c hb)]
    refine ⟨h.fine, h.settles, h.within, ?_, ?_, ?_, h.ready, h.regs⟩
    · intro d hd
      by_cases hdc : d = c
      · simp [hdc]
      · simpa [hdc] using h.idle d hd
    · intro d hd
      by_cases hdc : d = c
      · rw [hdc]; exact hw
      · exact h.rest d (by simpa [hdc] using hd)
    · intro d hd
      by_cases hdc : d = c
      · simp [hdc] at hd
      · exact h.alone d (by simpa [hdc] using hd)

/-- Off the jobs under way the memory is the plan's. -/
theorem mem (h : At p q b) {a : Nat} (ha : ∀ d k, p.pending d = some k → ¬Writes k a) : b.engines.mem a = p.mem a := by
  apply h.settles.done
  intro d hw
  rcases hp : p.pending d with _ | k
  · rw [h.rest d (h.idle d hp)] at hw
    exact none_writes a hw
  · exact ha d k hp ((h.within d k hp).2 a hw)

/-- A channel found not busy is done. -/
theorem settled (h : At p q b) {channel : Channel} (hb : b.busy channel = false) : At (p.settled channel) q b := by
  refine ⟨h.fine, h.settles, ?_, ?_, h.rest, h.alone, h.ready, h.regs⟩
  · intro d k hk
    by_cases hd : d = channel
    · simp [Plan.settled, hd] at hk
    · exact h.within d k (by simpa [Plan.settled, hd] using hk)
  · intro d hd
    by_cases hdc : d = channel
    · rw [hdc]; exact hb
    · exact h.idle d (by simpa [Plan.settled, hdc] using hd)

theorem setChannel (h : At p q b) {channel : Channel} (hp : p.pending channel = none) (f : DmaChannel → DmaChannel)
    (hq : ∀ r, q r → q' (Function.update r channel (f (r channel)))) :
    At (p.disarmed channel) q' (b.setChannel channel f) := by
  have hb := h.idle channel hp
  refine ⟨by simp [Block.setChannel, h.fine, hb], h.settles, h.within, h.idle, h.rest, ?_, ?_, hq _ h.regs⟩
  · intro d hd
    have hdc : d ≠ channel := fun e => by simp [Block.setChannel, e, hb] at hd
    simpa [Block.setChannel, hdc] using h.alone d hd
  · intro d j hj
    have hdc : d ≠ channel := fun e => by simp [Plan.disarmed, e] at hj
    simpa [Block.setChannel, hdc] using h.ready d j (by simpa [Plan.disarmed, hdc] using hj)

/-- The registers hold a job; the plan takes it up. -/
theorem arm (h : At p q b) {channel : Channel} {j : Job Nat} (ha : Armed (b.channels channel) channel j) :
    At (p.armed channel j) anyRegs b := by
  refine ⟨h.fine, h.settles, h.within, h.idle, h.rest, h.alone, ?_, trivial⟩
  intro d k hk
  by_cases hd : d = channel
  · subst hd
    simp only [Plan.armed, Function.update_self, Option.some.injEq] at hk
    exact hk ▸ ha
  · exact h.ready d k (by simpa [Plan.armed, hd] using hk)

theorem trigger (h : At p q b) {channel : Channel} {j : Job Nat} (hp : p.pending channel = none)
    (ha : Armed (b.channels channel) channel j) (hf : p.Free channel j) :
    At (p.begun channel j) anyRegs (b.trigger channel) := by
  have hb := h.idle channel hp
  have hw := h.rest channel hb
  have hapart : ∀ d, d ≠ channel → (⟨[], j⟩ : Work Nat UInt8).Apart (b.engines.work d) := by
    intro d hd
    rcases hk : p.pending d with _ | k
    · rw [h.rest d (h.idle d hk)]
      exact ⟨fun a _ => none_reads a, fun a hn => absurd hn (none_writes a), fun a _ => none_writes a⟩
    · have hap := hf.2 d k hd hk
      have hwk := h.within d k hk
      refine ⟨?_, fun a hx hr => hap.right a (hwk.2 a hx) hr, ?_⟩
      · intro a hx hr
        exact hap.left a (by simpa [Work.Writes] using hx) (hwk.1 a hr)
      · intro a hx hr
        exact hap.both a (by simpa [Work.Writes] using hx) (hwk.2 a hr)
  have hs := h.settles.start hw hf.1 hapart
  unfold Block.trigger
  simp only [if_neg ha.enabled, hb, ha.job, Bool.false_eq_true, if_false]
  refine ⟨h.fine, hs, ?_, ?_, ?_, ?_, ?_, trivial⟩
  · intro d k hk
    by_cases hd : d = channel
    · subst hd
      simp only [Plan.begun, Function.update_self, Option.some.injEq] at hk
      subst hk
      simp [Work.Reads, Work.Writes]
    · simp only [Plan.begun, Function.update_of_ne hd] at hk ⊢
      exact h.within d k hk
  · intro d hd
    have hdc : d ≠ channel := fun e => by simp [Plan.begun, e] at hd
    simp only [Plan.begun, Function.update_of_ne hdc] at hd ⊢
    exact h.idle d hd
  · intro d hd
    have hdc : d ≠ channel := fun e => by simp [e] at hd
    simp only [Function.update_of_ne hdc] at hd ⊢
    exact h.rest d hd
  · intro d hd
    by_cases hdc : d = channel
    · subst hdc
      simpa using ha.alone
    · simp only [Function.update_of_ne hdc] at hd ⊢
      exact h.alone d hd
  · intro d k hk
    have hdc : d ≠ channel := fun e => by simp [Plan.begun, e] at hk
    simp only [Plan.begun, Function.update_of_ne hdc] at hk ⊢
    exact h.ready d k hk

end At

/-- The block is where some plan says. -/
def Sound (b : Block) : Prop := ∃ p, At p anyRegs b

theorem At.sound {p : Plan} {q : (Channel → DmaChannel) → Prop} {b : Block} (h : At p q b) : Sound b :=
  ⟨p, { h with regs := trivial }⟩

/-! ## A channel comes to an end -/

/-- What is left to do, in steps. -/
def Work.steps (w : Work Nat UInt8) : Nat := w.fetched.length + 2 * w.todo.length

theorem comes_to_rest {p : Plan} (channel : Channel) (n : Nat) {b : Block} (h : At p anyRegs b)
    (hn : Work.steps (b.engines.work channel) = n) : ∃ b', Moves dma b b' ∧ b'.busy channel = false := by
  induction n using Nat.strong_induction_on generalizing b with
  | _ n ih =>
    by_cases hbusy : b.busy channel = true
    · rcases hw : b.engines.work channel with ⟨_ | ⟨⟨a, v⟩, l⟩, j⟩
      · rcases j with _ | ⟨beat, j⟩
        · refine ⟨b.finish channel, .single (Block.Move.finish hbusy hw), ?_⟩
          rw [finish_alone (h.alone channel hbusy)]
          simp
        · -- fetch
          have hm : Block.Move b _ := .beat (.fetch hw)
          have hlt : Work.steps ⟨[] ++ [(beat.dst, b.engines.mem beat.src)], j⟩ < n := by
            simp only [← hn, hw, Work.steps, List.length_append, List.length_cons, List.length_nil]
            omega
          obtain ⟨b', hb', hbusy'⟩ := ih _ hlt (At.stable _ _ h hm) (by simp)
          exact ⟨b', .head hm hb', hbusy'⟩
      · -- deliver
        have hm : Block.Move b _ := .beat (.deliver hw)
        have hlt : Work.steps ⟨l, j⟩ < n := by
          simp only [← hn, hw, Work.steps, List.length_cons]
          omega
        obtain ⟨b', hb', hbusy'⟩ := ih _ hlt (At.stable _ _ h hm) (by simp)
        exact ⟨b', .head hm hb', hbusy'⟩
    · exact ⟨b, .refl, Bool.eq_false_iff.mpr hbusy⟩

theorem await_met (channel : Channel) : Met dma Sound (dmaTransferAwait channel) := by
  refine ⟨?_, trivial⟩
  intro b hb
  obtain ⟨p, hp⟩ := hb
  obtain ⟨b', hm, hbusy⟩ := comes_to_rest channel _ hp rfl
  refine ⟨b', hm, ?_⟩
  have hc := ctrl_busy b' channel
  rw [hbusy] at hc
  exact Bool.not_eq_true' _ ▸ hc

theorem configure_met (channel : Channel) (config src dst n : UInt32) (start : Bool) :
    Met dma Sound (dmaChannelConfigure channel config src dst n start) := by
  apply (await_met channel).bind
  intro _
  cases start <;> exact trivial

theorem call_met (call : Call) : Met dma Sound call.program := by
  cases call with
  | configure channel config src dst n start =>
    exact (configure_met channel config src dst n start).bind fun _ => trivial
  | channelStart channel => exact trivial
  | transferStart src dst n channel =>
    exact ((await_met channel).bind fun _ => configure_met ..).bind fun _ => trivial
  | await channel => exact (await_met channel).bind fun _ => trivial
  | memcpy destination source num =>
    have hw : Met dma Sound (dmaTransferAwait 0) := await_met 0
    have hs : Met dma Sound (dmaTransferStart source destination num 0) := hw.bind fun _ => configure_met ..
    have hm : Met dma Sound (memcpy destination source num) := hs.bind fun _ => hw.bind fun _ => trivial
    exact hm.bind fun _ => trivial
  | load a => exact fun _ => trivial
  | store a v => exact trivial

theorem program_met (calls : List Call) : Met dma Sound (program calls) := by
  induction calls with
  | nil => exact trivial
  | cons call calls ih => exact (call_met call).bind fun _ => ih.bind fun _ => trivial

end OpenGpos.Dma
