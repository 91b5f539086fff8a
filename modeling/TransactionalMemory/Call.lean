import TransactionalMemory.Call.Access
import TransactionalMemory.Call.Commit

/-! # Calls on a context

A call is one request to a context: start an attempt, read, write, commit, roll back, extend the
snapshot, publish the counters.  It runs up to its answer, to a fault, or to a log event, where it
stands still.  What is left of it then is a value, `Pending`, and `resume` takes it up again, perhaps
after other contexts have run.  A read that stood still goes on in its loop, and starts over if it finds
its slot changed.

The runtime is only ever changed by the segment that runs, so every interleaving of calls is a
sequence of segments.
-/

namespace TransactionalMemory

/-- What a context can be asked for. -/
inductive Request where
  /-- Start an attempt of a block, whatever became of the one before. -/
  | start (block : Nat) (mode : Mode)
  /-- Look at the lock that covers a field. -/
  | probe (l : Location)
  | load (l : Location) (kind : Kind)
  /-- Look at the lock of a field, then read it. -/
  | read (l : Location) (kind : Kind)
  /-- Log a write to a field and take its lock. -/
  | write (l : Location) (value : Value)
  | commit
  | rollback
  /-- Move the bound of the snapshot to the clock, if every logged read is current. -/
  | extend
  | publish
  deriving DecidableEq, Repr

def Request.isAccess : Request → Bool
  | probe _ | load .. | read .. | write .. => true
  | _ => false

namespace Scope

/-- Hands the counters over to the runtime; counters that are all zero are not handed over. -/
def publish (s : Scope) : Except Fault Unit × Scope :=
  let tally := s.context.tally
  let s := { s with context := { s.context with tally := {} } }
  if tally = {} then (.ok (), s)
  else match s.runtime.publish tally with
    | .error f => (.error f, s)
    | .ok runtime => (.ok (), { s with runtime })

/-- A step that has nothing to answer, as a call. -/
def silent (p : Except Fault Unit × Scope) : Progress × Scope :=
  match p with
  | (.error f, s) => (.faulted f, s)
  | (.ok (), s) => (.answered .done, s)

/-- Runs a request up to its answer, to a fault or to an event. -/
def perform (s : Scope) : Request → Progress × Scope
  | .start block mode => silent (s.start block mode)
  | .probe l => s.probe l
  | .load l kind => s.load l kind
  | .read l kind => s.read l kind
  | .write l v => s.write l v
  | .commit => s.commit .commit
  | .rollback => silent s.rollback
  | .extend => s.extend
  | .publish => silent s.publish

/-- Where a call goes on once the bound of its snapshot has moved: a read in its loop, where it looks at
    the slot once more. -/
def onExtension (s : Scope) : AfterExtension → Course × Scope
  | .answer => (.stopped (.answered (.verdict true)), s)
  | .loadHeld l kind => stop (s.loadHeld l kind)
  | .recheck l kind slot stamp v => (.reading l kind slot (.settle stamp v), s)

def afterExtension (s : Scope) (next : AfterExtension) : Progress × Scope := conclude (s.onExtension next)

def finishGiveUp (s : Scope) (reason : GiveUpReason) : Except Fault Unit × Scope :=
  let counted := match reason with
    | .exhausted => s.context.tally.countExhausted
    | .abandoned => s.context.tally.countAbandoned
  match counted with
  | .error f => (.error f, s)
  | .ok tally => (.ok (), { s with context := { s.context with tally } })

def resume (s : Scope) : Pending → Progress × Scope
  | .abort c site => s.finishAbort c site
  | .failCommit site => s.abort .invalidCommit site
  | .extend candidate next =>
    { s with context := { s.context with upper := candidate } }.afterExtension next
  | .giveUp reason _ => silent (s.finishGiveUp reason)

/-- Takes up a call that stands at an event, so that others can act inside of its read loop. -/
def takeUp (s : Scope) : Pending → Course × Scope
  | .extend candidate next => { s with context := { s.context with upper := candidate } }.onExtension next
  | rest => stop (s.resume rest)

theorem conclude_takeUp (s : Scope) (rest : Pending) : conclude (s.takeUp rest) = s.resume rest := by
  cases rest <;> rfl

end Scope

end TransactionalMemory
