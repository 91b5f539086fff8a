import TransactionalMemory.Log.Reads
import TransactionalMemory.Mode
import TransactionalMemory.Tally

/-! # Transaction contexts

A context runs one attempt after the other for its owner.  It works on a snapshot: `lower` is the
clock at the start of the attempt, and every value read so far was in memory at the clock value
`upper`, which grows as the snapshot is extended.
-/

namespace TransactionalMemory

/-- Where a context stands. -/
inductive Phase where
  | uninitialized
  | active
  | committed
  | aborted
  deriving DecidableEq, Repr

def Phase.name : Phase → String
  | uninitialized => "Uninitialized"
  | active => "Active"
  | committed => "Committed"
  | aborted => "Aborted"

/-- The private state of one owner. -/
structure Context where
  owner : OwnerId
  phase : Phase := .uninitialized
  mode : Mode := .regular
  /-- The atomic block that the attempt belongs to. -/
  block : Nat := 0
  lower : Nat := 0
  upper : Nat := 0
  reads : ReadLog := {}
  writes : RedoLog := {}
  window : Window
  /-- Why the attempt was aborted; asked again, it gives the same answer. -/
  lastConflict : Option Conflict := none
  /-- What was counted since the last publication. -/
  tally : Tally := {}
  deriving DecidableEq, Repr

namespace Context

/-- Whether only the most recent reads are under watch at the moment. -/
def isFast (c : Context) : Bool := c.mode.isElastic && c.writes.isEmpty

def hasRead (c : Context) (l : Location) : Bool := c.window.contains l || c.reads.contains l

/-- Logs a read where the policy keeps it. -/
def logRead (c : Context) (e : ReadEntry) : Context :=
  if c.isFast then { c with window := c.window.push e } else { c with reads := c.reads.push e }

/-- Moves the window into the read log. -/
def drainWindow (c : Context) : Context :=
  let (window, reads) := c.window.drainInto c.reads
  { c with window, reads }

def text (c : Context) : String :=
  s!"TxContext \x7b owner: OwnerId({c.owner.id}), state: {c.phase.name}, mode: {c.mode.name}, " ++
    s!"block_id: {c.block}, lb: {c.lower}, ub: {c.upper}, reads: {c.reads.size}, " ++
    s!"writes: {c.writes.size} \x7d"

end Context

end TransactionalMemory
