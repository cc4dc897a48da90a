/-
  OpenGpos.Kernel.FailClosed — what becomes of a failure on the way to the jump. A path that does
  not resolve, a buffer that is not there, a read that fails and an image that is refused
  all come back from loadELF as a number, and kernel_main jumps to it: it fails closed
  exactly if nothing fails, or if it does not get to the jump at all (`fails_closed_iff`).
-/
import OpenGpos.Kernel.Load

namespace OpenGpos.Kernel

open OpenGpos.Lib OpenGpos.Lib.Bytes OpenGpos.Fat
open OpenGpos.Libc.Heap (Region board free free_returns)

/-- Nothing failed: the file was read completely, it is an executable that loadELF accepts,
    and `entry` is its entry point. -/
def Complete (env : Env) (fuel : Nat) (path : List UInt8) (k : Machine) (entry : Nat) : Prop :=
  ∃ file size data k', ReadsWhole env fuel path k file size data k' ∧ 52 ≤ size ∧ invalidExecutable file = false ∧
    entry = Elf.entry file

/-- From the initialised card on: if anything fails, no segment is written and there is no jump;
    and a jump is one to the entry point of a complete and accepted file. -/
def FailsClosed (path : List UInt8) (env : Env) (fuel : Nat) (r : Region) (sdReady : Bool) (k : Machine) : Prop :=
  ∀ k1, prepare env r k = .ok ((), k1) →
    ((¬∃ entry, Complete env fuel path k1 entry) → ∀ out k', kernelMainAt path env fuel r sdReady k = .ok (out, k') →
      out = none ∧ k'.written = k.written) ∧
    ∀ entry k', kernelMainAt path env fuel r sdReady k = .ok (some entry, k') → Complete env fuel path k1 entry.toNat

/-- Opening or reading the file does not come to an end. -/
def Stuck (env : Env) (fuel : Nat) (path : List UInt8) (k : Machine) :
    Prop := ∀ x k', readFile env fuel path k ≠ .ok (x, k')

section
variable {path : List UInt8} {env : Env} {fuel : Nat} {r : Region} {k k1 k' : Machine}

/-- Once the file is read, loadELF returns. -/
theorem loadELF_returns {x : Nat × Bool} (hr : readFile env fuel path k = .ok (x, k1)) :
    ∃ entry k', loadELF env fuel path k = .ok (entry, k') := by
  obtain ⟨data, ok⟩ := x
  by_cases hz : data = 0
  · refine ⟨2, k1, ?_⟩
    unfold loadELF
    rw [bind_apply, hr]
    simp only [ok_bind]
    rw [if_pos hz]
    rfl
  · by_cases hacc : invalidExecutable (k1.bytesAt data) = true
    · refine ⟨elfInvalidExecutable, k1, ?_⟩
      unfold loadELF
      rw [bind_apply, hr]
      simp only [ok_bind]
      rw [if_neg hz]
      simp only [bind_apply, get_apply, ok_bind]
      rw [if_pos hacc]
      rfl
    · rw [loadELF_read hr hz (Bool.eq_false_iff.mpr hacc)]
      obtain ⟨h, e⟩ := free_returns data (loadProgram data (readLe16 (k1.bytesAt data) 0x2C).toNat k1).heap
      rw [onHeap_ok e]
      exact ⟨_, _, rfl⟩

/-- The value of a load that nothing failed. -/
theorem Complete.entry {entry : Nat} (hc : Complete env fuel path k entry) {value : UInt32}
    (h : loadELF env fuel path k = .ok (value, k')) : value.toNat = entry := by
  obtain ⟨file, size, data, k1, hr, hsize, hacc, rfl⟩ := hc
  obtain ⟨sz, -, -, h1, -, hne, -, -, -, -, hbytes⟩ := hr.delivered
  rw [loadELF_read hr.run hne ((invalidExecutable_congr hsize hbytes).trans hacc)] at h
  obtain ⟨h2, e⟩ := free_returns data (loadProgram data (readLe16 (k1.bytesAt data) 0x2C).toNat k1).heap
  rw [onHeap_ok e] at h
  cases h
  rw [readField_toNat (by decide)]
  exact load32_congr fun i _ hi => hbytes i (by have : i < 0x18 + 4 := hi; omega)

theorem kernelMainAt_ready (hp : prepare env r k = .ok ((), k1)) : kernelMainAt path env fuel r true k =
    (loadELF env fuel path k1).bind fun x => .ok (some x.1, x.2) := by
  unfold kernelMainAt
  rw [if_neg (by decide), bind_apply, hp]
  rfl

/-- Without a card there is no jump. -/
theorem failsClosed_not_ready : FailsClosed path env fuel r false k := by
  intro k1 hp
  constructor
  · intro _ out k' hrun
    cases hrun
    exact ⟨rfl, rfl⟩
  · intro entry k' hrun
    cases hrun

/-- No run gets past a read that does not come to an end. -/
theorem Stuck.no_jump (hs : Stuck env fuel path k) (y : Option UInt32 × Machine) :
    (loadELF env fuel path k).bind (fun x => .ok (some x.1, x.2)) ≠ .ok y := by
  intro hy
  cases hl : loadELF env fuel path k with
  | error e =>
    rw [hl] at hy
    cases hy
  | ok z =>
    unfold loadELF at hl
    obtain ⟨x, k2, hr, -⟩ := bind_inv hl
    exact hs x k2 hr

end

/-- On every card, whatever fails, for every path: kernel_main fails closed exactly if the
    card does not initialise, a loop on the way to the image does not end or is undefined, or
    nothing fails at all. Segments are taken to lie apart from the kernel's stack and statics. -/
theorem fails_closed_iff (path : List UInt8) (env : Env) (fuel : Nat) (r : Region) (sdReady : Bool) (k : Machine) :
    FailsClosed path env fuel r sdReady k ↔ sdReady = false ∨
      ∀ k1, prepare env r k = .ok ((), k1) → Stuck env fuel path k1 ∨ ∃ entry, Complete env fuel path k1 entry := by
  constructor
  · intro h
    cases sdReady with
    | false => exact Or.inl rfl
    | true =>
      refine Or.inr fun k1 hp => ?_
      by_contra hno
      rw [not_or] at hno
      obtain ⟨hs, hc⟩ := hno
      -- the load returns something, and kernel_main jumps there
      unfold Stuck at hs
      push Not at hs
      obtain ⟨x, k2, hr⟩ := hs
      obtain ⟨entry, k3, hl⟩ := loadELF_returns hr
      have hrun : kernelMainAt path env fuel r true k = .ok (some entry, k3) := by
        rw [kernelMainAt_ready hp, hl]
        rfl
      exact hc ⟨_, (h k1 hp).2 entry k3 hrun⟩
  · rintro (rfl | h)
    · exact failsClosed_not_ready
    · cases sdReady with
      | false => exact failsClosed_not_ready
      | true =>
        intro k1 hp
        rw [kernelMainAt_ready hp]
        rcases h k1 hp with hs | ⟨entry, hc⟩
        · exact ⟨fun _ out k' hrun => absurd hrun (hs.no_jump _), fun entry k' hrun => absurd hrun (hs.no_jump _)⟩
        · refine ⟨fun hno => absurd ⟨entry, hc⟩ hno, ?_⟩
          intro value k' hrun
          cases hl : loadELF env fuel path k1 with
          | error e =>
            rw [hl] at hrun
            cases hrun
          | ok z =>
            rw [hl] at hrun
            cases hrun
            rw [Complete.entry hc hl]
            exact hc

/-- A card of which every read fails. -/
def deadCard : Env := { card [] with fails := fun _ => true }

/-- Nothing is mounted, nothing opened, nothing read: kernel_main jumps to address 1. -/
theorem jumps_to_error_code : ¬FailsClosed initPath deadCard 9 board true bootMachine ∧
    outcome (kernelMain deadCard 9 board true bootMachine) = some (some elfInvalidExecutable) := by
  have hp : outcome (prepare deadCard board bootMachine) = some () := by decide +kernel
  have hrun : outcome (kernelMain deadCard 9 board true bootMachine) = some (some elfInvalidExecutable) :=
      by decide +kernel
  have hread : outcome (readFile deadCard 9 initPath (final bootMachine (prepare deadCard board bootMachine))) =
      some (0x20000010, false) := by decide +kernel
  refine ⟨fun h => ?_, hrun⟩
  obtain ⟨file, size, data, k', hr, -⟩ := (h _ (outcome_some bootMachine hp)).2 _ _ (outcome_some bootMachine hrun)
  rw [hr.run] at hread
  cases hread

end OpenGpos.Kernel
