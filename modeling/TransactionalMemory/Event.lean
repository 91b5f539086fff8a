import TransactionalMemory.BlockResult
import TransactionalMemory.Version.Lock

/-! # Log events

A call that logs an event stands still there: whoever listens may act on the runtime before the call
goes on.  So the events are not only a record of a run, they are also the points inside a call at
which other transactions can run.
-/

namespace TransactionalMemory

inductive Level where
  | trace | debug | warn
  deriving DecidableEq, Repr

def Level.name : Level → String
  | trace => "TRACE"
  | debug => "DEBUG"
  | warn => "WARN"

inductive GiveUpReason where
  | exhausted
  | abandoned
  deriving DecidableEq, Repr

/-- What a call logs on its way. -/
inductive Event where
  /-- A transaction context is about to exist. -/
  | contextMade (owner : OwnerId)
  /-- An attempt is about to be rolled back for a conflict. -/
  | abort (owner : OwnerId) (block : Nat) (conflict : Conflict)
  /-- All logged reads are current, so the bound of the snapshot is about to grow. -/
  | extended (owner : OwnerId) (bound candidate : Nat)
  /-- A logged read is not current any more, so the commit is about to fail. -/
  | commitInvalid (owner : OwnerId) (block stamp lower reads : Nat)
  /-- An atomic block is about to give up. -/
  | gaveUp (reason : GiveUpReason) (report : GaveUp) (conflict : Conflict)
  deriving DecidableEq, Repr

namespace Event

def level : Event → Level
  | contextMade .. | abort .. | extended .. => .trace
  | commitInvalid .. => .debug
  | gaveUp .. => .warn

/-- The message of the event, by which listeners pick it. -/
def message : Event → String
  | contextMade .. => "new transaction context"
  | abort .. => "abort"
  | extended .. => "snapshot extended"
  | commitInvalid .. => "commit validation failed"
  | gaveUp .exhausted .. => "retry budget exhausted"
  | gaveUp .abandoned .. => "atomic block abandoned"

/-- What the event tells besides its message. -/
def fields : Event → List (String × String)
  | contextMade owner => [("owner", owner.text)]
  | abort owner block conflict =>
      [("owner", owner.text), ("block", toString block), ("conflict", conflict.text)]
  | extended owner bound candidate =>
      [("owner", owner.text), ("from", toString bound), ("to", toString candidate)]
  | commitInvalid owner block stamp lower reads =>
      [("owner", owner.text), ("block", toString block), ("timestamp", toString stamp),
        ("lb", toString lower), ("reads", toString reads)]
  | gaveUp _ report conflict =>
      [("block_id", toString report.block), ("attempts", toString report.attempts),
        ("conflict", conflict.text)]

end Event

end TransactionalMemory
