/-
  OpenGpos.Dma.Transfer — programs that call dma.c and go on while the channels copy. Whatever the
  channels do in between: no register of a channel at work is written, the loads bring what the plan
  says, and off the transfers under way the memory is the plan's (`calls_in_flight`). When memcpy
  returns it has copied (`memcpy_in_flight`), as the start-up code takes it to (`memcpy_refines`).
-/
import OpenGpos.Dma.Plan

namespace OpenGpos.Dma

open OpenGpos.Lib OpenGpos.Lib.Bytes OpenGpos.Lib.Mmio OpenGpos.Lib.Transfers
open OpenGpos.Kernel.Startup (DmaChannel dmaCtrlEn)

/-! ## The calls -/

section
variable {p : Plan} {q : (Channel → DmaChannel) → Prop} {channel : Channel}

theorem await_settles : Triple dma Sound (At p q) (dmaTransferAwait channel) fun _ => At (p.settled channel) q := by
  apply Triple.await (At (p.settled channel) q) At.stable fun _ h => h.sound
  · exact fun _ h _ => h
  · intro b h hc
    apply h.settled
    rw [← ctrl_busy b channel]
    exact Bool.not_eq_true' _ ▸ hc
  · exact Triple.done At.stable (fun _ h => h.sound) fun _ h => h

/-- When `dmaChannelBusy` says no, the channel's transfer is over. -/
theorem channelBusy_settles : Triple dma Sound (At p q) (dmaChannelBusy channel) fun busy =>
    At (if busy then p else p.settled channel) q := by
  apply Triple.load (fun v => At (if busyBit v then p else p.settled channel) q) At.stable fun _ h => h.sound
  · intro b h
    show At (if busyBit (b.ctrl channel) then p else p.settled channel) q b
    rw [ctrl_busy]
    cases hb : b.busy channel with
    | true => exact h
    | false => exact h.settled hb
  · exact fun v => Triple.done At.stable (fun _ h => h.sound) fun _ h => h

/-- A store to a register of a channel that is waited for. -/
theorem store_reg (f : DmaChannel → DmaChannel) (q' : (Channel → DmaChannel) → Prop) {r : Register} {v : UInt32}
    {α : Type} {k : DmaProg α} {post : α → Block → Prop} (hr : ∀ b, dma.store b r v = b.setChannel channel f)
    (hp : p.pending channel = none) (hq : ∀ c, q c → q' (Function.update c channel (f (c channel))))
    (hk : Triple dma Sound (At (p.disarmed channel) q') k post) :
    Triple dma Sound (At p q) (.store r v k) post := by
  apply Triple.store (At (p.disarmed channel) q') At.stable fun _ h => h.sound
  · intro b h
    rw [hr]
    exact h.setChannel hp f hq
  · exact hk

@[simp] theorem disarmed_disarmed (p : Plan) (channel : Channel) :
    (p.disarmed channel).disarmed channel = p.disarmed channel := by
  simp [Plan.disarmed]

@[simp] theorem disarmed_begun (p : Plan) (channel : Channel) (j : Job Nat) :
    (p.disarmed channel).begun channel j = p.begun channel j := by
  simp [Plan.disarmed, Plan.begun]

@[simp] theorem disarmed_armed (p : Plan) (channel : Channel) (j : Job Nat) :
    (p.disarmed channel).armed channel j = p.armed channel j := by
  simp [Plan.disarmed, Plan.armed]

@[simp] theorem settled_begun (p : Plan) (channel : Channel) (j : Job Nat) :
    (p.settled channel).begun channel j = p.begun channel j := by
  simp [Plan.settled, Plan.begun]

@[simp] theorem settled_pending (p : Plan) (channel : Channel) : (p.settled channel).pending channel = none := by
  simp [Plan.settled]

/-- The other channels are as they were. -/
theorem free_settled {j : Job Nat} (h : p.Free channel j) : (p.settled channel).Free channel j := by
  refine ⟨h.1, ?_⟩
  intro d k hd hk
  exact h.2 d k hd (by simpa [Plan.settled, hd] using hk)

theorem configure_runs {config src dst n : UInt32} {start : Bool}
    (h : (Call.configure channel config src dst n start).Permitted p) :
    Triple dma Sound (At p anyRegs) (dmaChannelConfigure channel config src dst n start)
      fun _ => At ((Call.configure channel config src dst n start).after p) anyRegs := by
  have hp : (p.settled channel).pending channel = none := settled_pending p channel
  have hp' : ((p.settled channel).disarmed channel).pending channel = none := hp
  unfold dmaChannelConfigure
  apply Triple.bind await_settles
  intro _
  simp only [Prog.write_bind]
  apply store_reg (fun c => { c with readAddr := src }) (fun c => (c channel).readAddr = src) (fun _ => rfl) hp
  · intro c _
    simp
  apply store_reg (fun c => { c with writeAddr := dst })
    (fun c => (c channel).readAddr = src ∧ (c channel).writeAddr = dst)
    (fun _ => rfl) hp'
  · intro c hc
    simpa using hc
  rw [disarmed_disarmed]
  apply store_reg (fun c => { c with transCount := n })
    (fun c => (c channel).readAddr = src ∧ (c channel).writeAddr = dst ∧ (c channel).transCount = n) (fun _ => rfl) hp'
  · intro c hc
    simpa [and_assoc] using hc
  simp only [disarmed_disarmed]
  have harm : ∀ c : Channel → DmaChannel,
      ((c channel).readAddr = src ∧ (c channel).writeAddr = dst ∧ (c channel).transCount = n) →
      Armed { c channel with ctrl := config ||| dmaCtrlEn } channel (jobOf config src dst n) := by
    intro c hc
    refine ⟨en_and config, noChain_en h.1, ?_⟩
    rw [← jobOf_en config]
    simp only [hc]
  cases start with
  | true =>
    simp only [if_true]
    apply Triple.store (At (p.begun channel (jobOf config src dst n)) anyRegs) At.stable fun _ h => h.sound
    · intro b hb
      have hs : At ((p.settled channel).disarmed channel) (fun c => Armed (c channel) channel (jobOf config src dst n))
          (b.setChannel channel fun c => { c with ctrl := config ||| dmaCtrlEn }) := by
        rw [← disarmed_disarmed]
        apply hb.setChannel hp'
        intro c hc
        simpa using harm c hc
      have ht := hs.trigger hp' hs.regs (free_settled (h.2 rfl))
      simp only [disarmed_begun, settled_begun] at ht
      exact ht
    · exact Triple.done At.stable (fun _ h => h.sound) fun _ h => by simpa [Call.after] using h
  | false =>
    simp only [Bool.false_eq_true, if_false, Prog.write]
    apply store_reg (fun c => { c with ctrl := config ||| dmaCtrlEn })
      (fun c => Armed (c channel) channel (jobOf config src dst n))
      (fun _ => rfl) hp'
    · intro c hc
      simpa using harm c hc
    · apply Triple.done At.stable fun _ h => h.sound
      intro b hb
      simp only [disarmed_disarmed] at hb
      have ha := hb.arm hb.regs
      simp only [disarmed_armed] at ha
      exact ha

theorem transferStart_runs {src dst n : UInt32} (h : p.Free channel (plainJob src dst n channel)) :
    Triple dma Sound (At p anyRegs) (dmaTransferStart src dst n channel)
      fun _ => At (p.begun channel (plainJob src dst n channel)) anyRegs := by
  unfold dmaTransferStart
  rw [default_eq]
  apply Triple.bind await_settles
  intro _
  have hperm : (Call.configure channel (dmaGetDefaultConfig (UInt8.ofNat channel)) src dst n true).Permitted
      (p.settled channel) := ⟨noChain_default channel, fun _ => free_settled h⟩
  have hc := configure_runs hperm
  simp only [Call.after, if_true, settled_begun] at hc
  exact hc

theorem memcpy_runs {destination source num : UInt32} (h : p.Free 0 (plainJob source destination num 0)) :
    Triple dma Sound (At p anyRegs) (memcpy destination source num)
      fun r b => r = destination ∧ At ((p.begun 0 (plainJob source destination num 0)).settled 0) anyRegs b := by
  unfold memcpy
  apply Triple.bind (transferStart_runs h)
  intro _
  apply Triple.bind await_settles
  intro _
  exact Triple.done At.stable (fun _ h => h.sound) fun _ h => ⟨rfl, h⟩

theorem channelStart_runs (h : (Call.channelStart channel).Permitted p) :
    Triple dma Sound (At p anyRegs) (dmaChannelStart channel)
    fun _ => At ((Call.channelStart channel).after p) anyRegs := by
  obtain ⟨hp, j, hj, hf⟩ := h
  have ha : (Call.channelStart channel).after p = p.begun channel j := by simp only [Call.after, hj]
  rw [ha]
  apply Triple.store (At (p.begun channel j) anyRegs) At.stable fun _ h => h.sound
  · intro b hb
    have ht : dma.store b .multiChanTrig ((1 : UInt32) <<< (UInt32.ofNat channel &&& 0b1111)) = b.trigger channel :=
      trigger_only b channel
    rw [ht]
    exact hb.trigger hp (hb.ready channel j hj) hf
  · exact Triple.done At.stable (fun _ h => h.sound) fun _ h => h

theorem load_runs {a : UInt32} (h : (Call.load a).Permitted p) : Triple dma Sound (At p anyRegs) (Call.load a).program
    fun l b => l = [p.mem a.toNat] ∧ At p anyRegs b := by
  apply Triple.load (fun v b => v.toUInt8 = p.mem a.toNat ∧ At p anyRegs b) At.stable fun _ h => h.sound
  · intro b hb
    refine ⟨?_, hb⟩
    rw [← hb.mem h]
    exact UInt8.toUInt8_toUInt32 _
  · intro v
    apply Triple.done
    · exact fun b b' hb hm => ⟨hb.1, At.stable b b' hb.2 hm⟩
    · exact fun b hb => hb.2.sound
    · exact fun b hb => ⟨congrArg (fun x => [x]) hb.1, hb.2⟩

theorem store_runs {a : UInt32} {v : UInt8} (h : (Call.store a v).Permitted p) :
    Triple dma Sound (At p anyRegs) (.write (.mem a) v.toUInt32) fun _ => At ((Call.store a v).after p) anyRegs := by
  apply Triple.store (At ((Call.store a v).after p) anyRegs) At.stable fun _ h => h.sound
  · intro b hb
    have hfree : ∀ d, ¬(b.engines.work d).Reads a.toNat ∧ ¬(b.engines.work d).Writes a.toNat := by
      intro d
      rcases hk : p.pending d with _ | k
      · rw [hb.rest d (hb.idle d hk)]
        exact ⟨none_reads _, none_writes _⟩
      · have hw := hb.within d k hk
        exact ⟨fun hr => (h d k hk).1 (hw.1 _ hr), fun hx => (h d k hk).2 (hw.2 _ hx)⟩
    have hs := hb.settles.store v (fun d => (hfree d).1) fun d => (hfree d).2
    have hst : dma.store b (.mem a) v.toUInt32 =
        { b with engines := { b.engines with mem := Function.update b.engines.mem a.toNat v } } := by
      have hv : v.toUInt32.toUInt8 = v := UInt8.toUInt8_toUInt32 v
      simp only [dma, hv]
    rw [hst]
    exact ⟨hb.fine, hs, hb.within, hb.idle, hb.rest, hb.alone, hb.ready, trivial⟩
  · exact Triple.done At.stable (fun _ h => h.sound) fun _ h => h

theorem call_runs {call : Call} (h : call.Permitted p) : Triple dma Sound (At p anyRegs) call.program
    fun l b => l = call.answer p ∧ At (call.after p) anyRegs b := by
  have hdone : ∀ p' : Plan, Triple dma Sound (At p' anyRegs) (.done [])
      fun (l : List UInt8) b => l = [] ∧ At p' anyRegs b :=
    fun p' => Triple.done At.stable (fun _ h => h.sound) fun _ h => ⟨rfl, h⟩
  cases call with
  | configure channel config src dst n start => exact (configure_runs h).bind fun _ => hdone _
  | channelStart channel => exact (channelStart_runs h).bind fun _ => hdone _
  | transferStart src dst n channel => exact (transferStart_runs h).bind fun _ => hdone _
  | await channel => exact await_settles.bind fun _ => hdone _
  | memcpy destination source num => exact (memcpy_runs h).bind fun _ => (hdone _).pre fun _ hb => hb.2
  | load a => exact load_runs h
  | store a v => exact (store_runs h).bind fun _ => hdone _

theorem program_runs {calls : List Call} (h : AllPermitted p calls) : Triple dma Sound (At p anyRegs) (program calls)
    fun l b => l = answers p calls ∧ At (planned p calls) anyRegs b := by
  induction calls generalizing p with
  | nil => exact Triple.done At.stable (fun _ h => h.sound) fun _ h => ⟨rfl, h⟩
  | cons call calls ih =>
    apply Triple.bind (call_runs h.1)
    intro l
    refine ⟨fun b hb => ?_⟩
    apply ((ih h.2).bind _).holds b hb.2
    intro l'
    refine ⟨fun b' hb' => ?_⟩
    have hd : Triple dma Sound (At (planned (call.after p) calls) anyRegs) (.done (l ++ l'))
        fun m b => m = answers p (call :: calls) ∧ At (planned p (call :: calls)) anyRegs b := by
      apply Triple.done At.stable fun _ h => h.sound
      intro b'' hb''
      exact ⟨by rw [hb.1, hb'.1]; rfl, hb''⟩
    exact hd.holds b' hb'.2

end

/-! ## Whole programs -/

/-- No channel is at work. -/
structure Block.Idle (b : Block) : Prop where
  fine : b.misused = false
  busy : ∀ d, b.busy d = false
  work : ∀ d, b.engines.work d = Work.none

theorem Block.Idle.at {b : Block} (h : b.Idle) : At (Plan.idle b.engines.mem) anyRegs b := by
  refine ⟨h.fine, ⟨fun _ _ => rfl, ?_, ?_, ?_⟩, (fun d k hk => nomatch hk), fun d _ => h.busy d,
    fun d _ => h.work d, ?_, ?_, trivial⟩
  · intro d a ha
    rw [h.work d] at ha
    exact absurd ha (none_writes a)
  · intro d a ha
    rw [h.work d] at ha
    exact absurd ha (none_writes a)
  · intro d e _
    rw [h.work d, h.work e]
    exact ⟨fun a _ => none_reads a, fun a _ => none_reads a, fun a _ => none_writes a⟩
  · intro d hd
    rw [h.busy d] at hd
    cases hd
  · exact fun d j hj => nomatch hj

theorem plain_beats {f : Fields} (hs : f.dataSize = 0) (hr : f.incrRead = 1) (hw : f.incrWrite = 1)
    (hring : f.ringSize = 0)
    (hb : f.bswap = false) (n : Nat) {src dst : Nat} (hsrc : src + n ≤ 2 ^ 32) (hdst : dst + n ≤ 2 ^ 32) :
    f.beats n src dst = (List.range n).map fun i => ⟨src + i, dst + i⟩ := by
  have hsize : f.elementSize = 1 := by simp [Fields.elementSize, hs]
  have helem : ∀ r w, f.element r w = [⟨r, w⟩] := by
    intro r w
    simp [Fields.element, hsize, hb]
  have hadv : ∀ write addr, f.advance write addr = (addr + 1) % 2 ^ 32 := by
    intro write addr
    cases write <;> simp [Fields.advance, hr, hw, hring, hsize]
  induction n generalizing src dst with
  | zero => rfl
  | succ n ih =>
    rw [Fields.beats, helem, hadv, hadv, List.range_succ_eq_map, List.map_cons, List.map_map, List.singleton_append]
    rcases Nat.eq_zero_or_pos n with rfl | hn
    · rfl
    · rw [Nat.mod_eq_of_lt (by omega), Nat.mod_eq_of_lt (by omega), ih (by omega) (by omega)]
      refine congrArg _ (List.map_congr_left fun i _ => ?_)
      simp only [Function.comp_apply, Beat.mk.injEq]
      omega

theorem plainJob_eq {src dst n : UInt32} (channel : Channel) (hsrc : src.toNat + n.toNat ≤ 2 ^ 32)
    (hdst : dst.toNat + n.toNat ≤ 2 ^ 32) :
    plainJob src dst n channel = (List.range n.toNat).map fun i => ⟨src.toNat + i, dst.toNat + i⟩ := by
  unfold plainJob jobOf
  rw [decode_default]
  exact plain_beats rfl rfl rfl rfl (by simp [Fields.bswap]) _ hsrc hdst

/-- One byte after the other, upwards. -/
theorem perform_range (m : Mem) (src dst n : Nat) :
    perform m ((List.range n).map fun i => ⟨src + i, dst + i⟩) = copy m dst src n := by
  induction n with
  | zero => rfl
  | succ n ih =>
    rw [List.range_succ, List.map_append, perform_append, ih]
    funext a
    simp [perform, copy, store8, Function.update_apply]

section
variable {p : Plan} {channel : Channel} {src dst n : UInt32}

theorem plainJob_writes (hsrc : src.toNat + n.toNat ≤ 2 ^ 32) (hdst : dst.toNat + n.toNat ≤ 2 ^ 32) {a : Nat}
    (h : Writes (plainJob src dst n channel) a) : dst.toNat ≤ a ∧ a < dst.toNat + n.toNat := by
  rw [plainJob_eq channel hsrc hdst, Writes, List.map_map, List.mem_map] at h
  obtain ⟨i, hi, rfl⟩ := h
  have := List.mem_range.mp hi
  simp only [Function.comp_apply]
  omega

theorem plainJob_reads (hsrc : src.toNat + n.toNat ≤ 2 ^ 32) (hdst : dst.toNat + n.toNat ≤ 2 ^ 32) {a : Nat}
    (h : Reads (plainJob src dst n channel) a) : src.toNat ≤ a ∧ a < src.toNat + n.toNat := by
  rw [plainJob_eq channel hsrc hdst, Reads, List.map_map, List.mem_map] at h
  obtain ⟨i, hi, rfl⟩ := h
  have := List.mem_range.mp hi
  simp only [Function.comp_apply]
  omega

theorem free_plain (hsrc : src.toNat + n.toNat ≤ 2 ^ 32) (hdst : dst.toNat + n.toNat ≤ 2 ^ 32)
    (hover : src.toNat + n.toNat ≤ dst.toNat ∨ dst.toNat + n.toNat ≤ src.toNat)
    (hp : ∀ d k a, d ≠ channel → p.pending d = some k →
      (dst.toNat ≤ a → a < dst.toNat + n.toNat → ¬Reads k a ∧ ¬Writes k a) ∧
      (src.toNat ≤ a → a < src.toNat + n.toNat → ¬Writes k a)) : p.Free channel (plainJob src dst n channel) := by
  have hw : ∀ a, Writes (plainJob src dst n channel) a → dst.toNat ≤ a ∧ a < dst.toNat + n.toNat :=
    fun a => plainJob_writes hsrc hdst
  have hr : ∀ a, Reads (plainJob src dst n channel) a → src.toNat ≤ a ∧ a < src.toNat + n.toNat :=
    fun a => plainJob_reads hsrc hdst
  refine ⟨?_, ?_⟩
  · intro a ha hb
    have := hw a ha
    have := hr a hb
    omega
  · intro d k hd hk
    refine ⟨?_, ?_, ?_⟩
    · exact fun a ha => ((hp d k a hd hk).1 (hw a ha).1 (hw a ha).2).1
    · exact fun a ha hb => (hp d k a hd hk).2 (hr a hb).1 (hr a hb).2 ha
    · exact fun a ha => ((hp d k a hd hk).1 (hw a ha).1 (hw a ha).2).2

end

theorem allPermitted_append {p : Plan} {calls calls' : List Call} :
    AllPermitted p (calls ++ calls') ↔ AllPermitted p calls ∧ AllPermitted (planned p calls) calls' := by
  induction calls generalizing p with
  | nil => simp [AllPermitted, planned]
  | cons call calls ih =>
    simp only [List.cons_append, AllPermitted, ih, and_assoc]
    rfl

section
variable {calls : List Call} {b b' : Block} {destination source num : UInt32} {l : List UInt8}

/-- Where memcpy leaves the block and the plan. -/
theorem memcpy_returns (hb : b.Idle) (h : AllPermitted (.idle b.engines.mem) calls)
    (hsrc : source.toNat + num.toNat ≤ 2 ^ 32) (hdst : destination.toNat + num.toNat ≤ 2 ^ 32)
    (hf : (planned (.idle b.engines.mem) calls).Free 0 (plainJob source destination num 0))
    (hs : Steps dma ⟨program (calls ++ [.memcpy destination source num]), b⟩ ⟨.done l, b'⟩) : ∃ p, At p anyRegs b' ∧
      p.mem = copy (planned (.idle b.engines.mem) calls).mem destination.toNat source.toNat num.toNat ∧
        ∀ d k, p.pending d = some k → d ≠ 0 ∧ (planned (.idle b.engines.mem) calls).pending d = some k := by
  have hm : AllPermitted (.idle b.engines.mem) (calls ++ [.memcpy destination source num]) :=
    allPermitted_append.mpr ⟨h, hf, trivial⟩
  obtain ⟨-, hdone⟩ := (program_runs hm).sound hb.at hs
  obtain ⟨-, hat⟩ := hdone l rfl
  rw [planned, List.foldl_append] at hat
  refine ⟨_, hat, ?_, ?_⟩
  · change perform (planned (.idle b.engines.mem) calls).mem (plainJob source destination num 0) = _
    rw [plainJob_eq 0 hsrc hdst, perform_range]
  · intro d k hk
    by_cases hd : d = 0
    · simp [Call.after, Plan.settled, hd] at hk
    · exact ⟨hd, by simpa [planned, Call.after, Plan.settled, Plan.begun, hd] using hk⟩

/-- After any calls, with other transfers still under way: when memcpy returns it has copied, and
    nothing but the destination has changed. -/
theorem memcpy_in_flight (hb : b.Idle) (h : AllPermitted (.idle b.engines.mem) calls)
    (hsrc : source.toNat + num.toNat ≤ 2 ^ 32) (hdst : destination.toNat + num.toNat ≤ 2 ^ 32)
    (hover : source.toNat + num.toNat ≤ destination.toNat ∨ destination.toNat + num.toNat ≤ source.toNat)
    (hp : ∀ d k a, d ≠ 0 → (planned (.idle b.engines.mem) calls).pending d = some k →
      (destination.toNat ≤ a → a < destination.toNat + num.toNat → ¬Reads k a ∧ ¬Writes k a) ∧
        (source.toNat ≤ a → a < source.toNat + num.toNat → ¬Writes k a))
    (hs : Steps dma ⟨program (calls ++ [.memcpy destination source num]), b⟩ ⟨.done l, b'⟩) :
    ∀ a, (∀ d k, d ≠ 0 → (planned (.idle b.engines.mem) calls).pending d = some k → ¬Writes k a) →
      b'.engines.mem a = copy (planned (.idle b.engines.mem) calls).mem destination.toNat source.toNat num.toNat a := by
  obtain ⟨p, hat, hmem, hpending⟩ := memcpy_returns hb h hsrc hdst (free_plain hsrc hdst hover hp) hs
  intro a ha
  rw [← hmem]
  apply hat.mem
  intro d k hk
  obtain ⟨hd, hk'⟩ := hpending d k hk
  exact ha d k hd hk'

/-- The transfer that is over at once, as the start-up code sees it, is what comes of every order. -/
theorem memcpy_refines {board : Kernel.Startup.Board} (hheld : board.dmaHeld = false) (hb : b.Idle)
    (hmem : b.engines.mem = board.mem)
    (hsrc : source.toNat + num.toNat ≤ 2 ^ 32) (hdst : destination.toNat + num.toNat ≤ 2 ^ 32)
    (hover : source.toNat + num.toNat ≤ destination.toNat ∨ destination.toNat + num.toNat ≤ source.toNat)
    (hs : Steps dma ⟨program [.memcpy destination source num], b⟩ ⟨.done l, b'⟩) :
    b'.engines.mem = (Kernel.Startup.memcpy board destination source num).mem := by
  have hf : (planned (.idle b.engines.mem) []).Free 0 (plainJob source destination num 0) :=
    free_plain hsrc hdst hover fun d k a _ hk => nomatch hk
  have hs' : Steps dma ⟨program ([] ++ [.memcpy destination source num]), b⟩ ⟨.done l, b'⟩ := hs
  have h0 : AllPermitted (.idle b.engines.mem) [] := trivial
  obtain ⟨p, hat, hp, hpending⟩ := memcpy_returns hb h0 hsrc hdst hf hs'
  rw [Kernel.Startup.memcpy_mem hheld, ← hmem]
  funext a
  have ha : b'.engines.mem a = p.mem a := hat.mem fun d k hk => nomatch (hpending d k hk).2
  rw [ha, hp]
  rfl

end

/-! ## A run -/

/-- Two bytes on channel 1 while a byte is stored and memcpy copies two. -/
def mixed : List Call :=
  [.transferStart 0x20000000 0x20001000 2 1, .store 0x20003000 7, .memcpy 0x20002000 0x20003000 2,
    .load 0x20003000, .await 1]

def quiet : Block where
  engines := ⟨fun a => .ofNat a, fun _ => Work.none⟩
  channels _ := ⟨0, 0, 0, 0⟩
  busy _ := false
  misused := false

theorem quiet_idle : quiet.Idle := ⟨rfl, fun _ => rfl, fun _ => rfl⟩

theorem mixed_pending {d : Channel} {k : Job Nat}
    (h : ((Call.transferStart 0x20000000 0x20001000 2 1).after (.idle quiet.engines.mem)).pending d = some k) :
    d = 1 ∧ k = plainJob 0x20000000 0x20001000 2 1 := by
  by_cases hd : d = 1
  · subst hd
    exact ⟨rfl, (Option.some.inj h).symm⟩
  · simp [Call.after, Plan.begun, Plan.idle, hd] at h

theorem mixed_permitted : AllPermitted (.idle quiet.engines.mem) mixed := by
  have hw : ∀ {a}, Writes (plainJob 0x20000000 0x20001000 2 1) a → 0x20001000 ≤ a ∧ a < 0x20001002 :=
    fun {a} => plainJob_writes (by decide) (by decide)
  have hr : ∀ {a}, Reads (plainJob 0x20000000 0x20001000 2 1) a → 0x20000000 ≤ a ∧ a < 0x20000002 :=
    fun {a} => plainJob_reads (by decide) (by decide)
  refine ⟨free_plain (by decide) (by decide) (by decide) (fun d k a _ hk => nomatch hk), ?_, ?_, ?_, trivial, trivial⟩
  · intro d k hk
    obtain ⟨-, rfl⟩ := mixed_pending hk
    exact ⟨fun h => absurd (hr h).2 (by decide), fun h => absurd (hw h).2 (by decide)⟩
  · apply free_plain (by decide) (by decide) (by decide)
    intro d k a _ hk
    obtain ⟨-, rfl⟩ := mixed_pending hk
    refine ⟨fun hlo _ => ⟨fun h => ?_, fun h => ?_⟩, fun hlo _ h => ?_⟩
    · exact absurd (hlo.trans_lt (hr h).2) (by decide)
    · exact absurd (hlo.trans_lt (hw h).2) (by decide)
    · exact absurd (hlo.trans_lt (hw h).2) (by decide)
  · intro d k hk h
    have hk' : d ≠ 0 := fun e => by simp [Call.after, Plan.settled, e] at hk
    have hp := mixed_pending (d := d) (k := k) (by simpa [Call.after, Plan.settled, Plan.begun, hk'] using hk)
    rw [hp.2] at h
    exact absurd (hw h).2 (by decide)

/-- The memcpy of that program, when it returns. -/
theorem mixed_memcpy : ∃ l b',
    Steps dma ⟨program (mixed.take 2 ++ [.memcpy 0x20002000 0x20003000 2]), quiet⟩ ⟨.done l, b'⟩ ∧
    b'.engines.mem 0x20002000 = 7 ∧ b'.engines.mem 0x20002001 = 1 := by
  have hperm : AllPermitted (.idle quiet.engines.mem) (mixed.take 2) :=
    ⟨mixed_permitted.1, mixed_permitted.2.1, trivial⟩
  have hp : ∀ d k a, d ≠ 0 → (planned (.idle quiet.engines.mem) (mixed.take 2)).pending d = some k →
      (0x20002000 ≤ a → a < 0x20002002 → ¬Reads k a ∧ ¬Writes k a) ∧
        (0x20003000 ≤ a → a < 0x20003002 → ¬Writes k a) := by
    intro d k a _ hk
    obtain ⟨-, rfl⟩ := mixed_pending hk
    refine ⟨fun hlo _ => ⟨fun h => ?_, fun h => ?_⟩, fun hlo _ h => ?_⟩
    · exact absurd (hlo.trans_lt (plainJob_reads (by decide) (by decide) h).2) (by decide)
    · exact absurd (hlo.trans_lt (plainJob_writes (by decide) (by decide) h).2) (by decide)
    · exact absurd (hlo.trans_lt (plainJob_writes (by decide) (by decide) h).2) (by decide)
  have hall : AllPermitted (.idle quiet.engines.mem) (mixed.take 2 ++ [.memcpy 0x20002000 0x20003000 2]) :=
    allPermitted_append.mpr ⟨hperm, mixed_permitted.2.2.1, trivial⟩
  obtain ⟨l, b', hrun⟩ := (program_runs hall).ends (program_met _) quiet_idle.at .refl
  have hmem := fun h1 h2 h3 h4 => memcpy_in_flight quiet_idle hperm h1 h2 h3 h4 hrun
  replace hmem := hmem (by decide) (by decide) (by decide) hp
  refine ⟨l, b', hrun, ?_, ?_⟩
  · rw [hmem _ fun d k hd hk h => ((hp d k 0x20002000 hd hk).1 (by decide) (by decide)).2 h]
    decide +kernel
  · rw [hmem _ fun d k hd hk h => ((hp d k 0x20002001 hd hk).1 (by decide) (by decide)).2 h]
    decide +kernel

end OpenGpos.Dma
