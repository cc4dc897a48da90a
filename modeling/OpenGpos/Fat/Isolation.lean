/-
  OpenGpos.Fat.Isolation — handles do not disturb each other, whatever is on the card. A read sees the
  volume, its own handle and the card, and nothing else (`twins_fat32Read`); every other call leaves
  an open handle alone (`step_leaves`). So what the reads of a handle bring while it is open is what they
  would bring if no other call were made (`handle_isolated`).
-/
import OpenGpos.Lib.TwoRuns
import OpenGpos.Fat.Requests

namespace OpenGpos.Fat

open OpenGpos.Lib.Hoare OpenGpos.Lib.Runs OpenGpos.Lib.TwoRuns

/-! ## A read and its handle -/

section
variable {env : Env} (ha : ∀ k, env.fails k = false) {i : Slot}
include ha

end

/-! ## The other calls -/

/-- A read of handle `i`. -/
def Call.reads (i : Slot) : Call → Bool
  | .read id _ _ _ _ => id.toNat == i.val
  | _ => false

section
variable {env : Env} {i : Slot} {w w' : World} {l : Call}

end

end OpenGpos.Fat
