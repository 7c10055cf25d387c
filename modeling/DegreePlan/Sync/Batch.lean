import DegreePlan.Sync.Mutation

/-!
# Batches

Mutations that come close together are written to the backend as one batch: one call to delete
courses, if any are gone, and one save for every semester that was touched. A batch keeps the plan
from before its first mutation, to which a failed write goes back.
-/

namespace DegreePlan.Sync

/-- How far the coordinator, or one batch, is. -/
inductive SyncState where
  | idle
  | applying
  | pending
  | committed
  | rolledBack
deriving DecidableEq, Inhabited

/-- The state as text. -/
def SyncState.text : SyncState → String
  | idle => "idle"
  | applying => "applying"
  | pending => "pending"
  | committed => "committed"
  | rolledBack => "rolled_back"

/-- Mutations that wait to be written, or are being written. -/
structure Batch where
  /-- Tells batches apart whose contents are the same. -/
  serial : Nat
  /-- The plan before the first mutation. -/
  snapshot : Snapshot
  epoch : Nat
  mutations : List Mutation := []
  semesters : List Json := []
  deleted : List Json := []
  state : SyncState := .applying
  /-- The version of the plan when the write began. -/
  closedAt : Option Nat := none

namespace Batch

/-- Adds a mutation with what it did. -/
def push (b : Batch) (m : Mutation) (e : Effect) : Batch :=
  { b with
    mutations := b.mutations ++ [m]
    semesters := Json.distinct (b.semesters ++ e.semesters)
    deleted := b.deleted ++ e.deleted
    state := .pending }

/-- Puts a batch that could not be written in front. -/
def prepend (b earlier : Batch) : Batch :=
  { b with
    snapshot := earlier.snapshot
    mutations := earlier.mutations ++ b.mutations
    semesters := Json.distinct (b.semesters ++ earlier.semesters)
    deleted := b.deleted ++ earlier.deleted }

/-- The semesters in order. -/
def sortedSemesters (b : Batch) : Except Fault (List Json) := Json.sortBy id b.semesters

/-- Both hold the same values, in any order. -/
def sameMembers (xs ys : List Json) : Bool :=
  xs.all (·.isIn ys) && ys.all (·.isIn xs)

/-- Both are the same, item by item. -/
def sameItems {α : Type} (same : α → α → Bool) (xs ys : List α) : Bool :=
  xs.length == ys.length && (xs.zip ys).all fun (x, y) => same x y

/-- Both have the same contents. -/
def same (a b : Batch) : Bool :=
  a.snapshot.owner == b.snapshot.owner && a.snapshot.version == b.snapshot.version &&
    a.snapshot.sameSemesters b.snapshot && a.epoch == b.epoch &&
    sameItems Mutation.same a.mutations b.mutations && sameMembers a.semesters b.semesters &&
    sameItems Json.same a.deleted b.deleted && a.state == b.state && a.closedAt == b.closedAt

end Batch

/-! ## Writes -/

/-- One request to the backend. -/
inductive Call where
  | delete (ids : List Json)
  | save (payload : Json)

/-- The answer of the backend. -/
inductive Reply where
  | accepted
  | rejected
  | failed (cause : String)
deriving DecidableEq, Inhabited

/-- Why the write of a batch fails at an answer, if it does. -/
def Call.failure : Call → Reply → Option String
  | _, .accepted => none
  | _, .failed cause => some cause
  | .delete ids, .rejected => some s!"delete_course rejected {(Json.arr ids).shown}"
  | .save payload, .rejected =>
    let id := Json.fieldOf (payload.fields?.getD []) "id"
    some s!"create_or_update_semester rejected semester {id.asText}"

/-- The write of a batch to the backend of a user. -/
structure Write where
  backend : Option String
  deleted : List Json
  payloads : List Json

namespace Write

/-- The requests in order. -/
def calls (w : Write) : List Call :=
  (if w.deleted.isEmpty then [] else [.delete w.deleted]) ++ w.payloads.map .save

/-- Sends requests until one fails, and gives the cause. -/
def sendAll {m : Type → Type} [Monad m] (send : Call → m Reply) : List Call → m (Option String)
  | [] => pure none
  | call :: rest => do
    match call.failure (← send call) with
    | some cause => pure (some cause)
    | none => sendAll send rest

/-- Writes a batch and gives the cause if it fails. -/
def run {m : Type → Type} [Monad m] (w : Write) (send : String → Call → m Reply) :
    m (Option String) :=
  match w.backend with
  | none => pure (some "No persistence backend for this session")
  | some user => sendAll (send user) w.calls

end Write
end DegreePlan.Sync
