import TransactionalMemory.Context
import TransactionalMemory.Event
import TransactionalMemory.Runtime

/-! # Segments of calls

A call runs up to its answer, to a fault, or to a log event, where it stands still.  What is left of
it then is a value, `Pending`.  This module has the data that calls are made of, and the start and
the end of an attempt, which every call may come to.
-/

namespace TransactionalMemory

inductive Reply where
  | done
  | value (v : Value)
  | verdict (b : Bool)
  /-- The attempt is rolled back. -/
  | aborted (c : Conflict)
  deriving DecidableEq, Repr

/-- Which call an abort belongs to. -/
inductive AbortSite where
  /-- An access, which answers with the conflict. -/
  | access
  /-- A commit, which answers that it failed. -/
  | commit
  /-- The commit of an atomic block, which goes on with the conflict. -/
  | block
  deriving DecidableEq, Repr

/-- What a call does once the bound of the snapshot has moved. -/
inductive AfterExtension where
  | answer
  /-- It reads a field under a slot that the attempt itself holds. -/
  | loadHeld (l : Location) (kind : Kind)
  /-- It makes sure that the slot did not change since the value was loaded. -/
  | recheck (l : Location) (kind : Kind) (slot stamp : Nat) (value : Value)
  deriving DecidableEq, Repr

/-- What is left of a call that stands at a log event. -/
inductive Pending where
  /-- Count the abort, roll back and report. -/
  | abort (c : Conflict) (site : AbortSite)
  /-- Abort a commit that failed its check. -/
  | failCommit (site : AbortSite)
  /-- Move the bound of the snapshot, then go on. -/
  | extend (candidate : Nat) (next : AfterExtension)
  /-- Count that the atomic block gave up, and report. -/
  | giveUp (reason : GiveUpReason) (report : GaveUp)
  deriving DecidableEq, Repr

/-- How far a call came. -/
inductive Progress where
  | answered (r : Reply)
  | faulted (f : Fault)
  | standing (e : Event) (rest : Pending)
  /-- The commit of an atomic block has ended in a conflict and is rolled back. -/
  | commitLost
  deriving DecidableEq, Repr

/-- A context and the runtime that it works on. -/
structure Scope where
  runtime : Runtime
  context : Context

namespace Scope

/-- Gives back the slots that the attempt holds and forgets its writes. -/
def releaseWrites (s : Scope) : Except Fault Unit × Scope :=
  match s.context.writes.rollback s.runtime.table with
  | (result, writes, table) =>
    (result, { runtime := { s.runtime with table }, context := { s.context with writes } })

/-- The context at the start of an attempt, on a snapshot taken now. -/
def fresh (s : Scope) (block : Nat) (mode : Mode) : Scope :=
  { s with context :=
    { s.context with
      phase := .active, mode, block
      lower := s.runtime.clock.now, upper := s.runtime.clock.now
      reads := {}, window := s.context.window.clear, lastConflict := none } }

/-- Starts an attempt.  One that was neither committed nor rolled back gives its slots back first. -/
def start (s : Scope) (block : Nat) (mode : Mode) : Except Fault Unit × Scope :=
  if s.context.writes.isEmpty then (.ok (), s.fresh block mode)
  else match s.releaseWrites with
    | (.error f, s) => (.error f, s)
    | (.ok (), s) => (.ok (), s.fresh block mode)

/-- Ends an active attempt without effect.  Nothing happens to one that has ended already. -/
def rollback (s : Scope) : Except Fault Unit × Scope :=
  if s.context.phase = .active then
    match s.releaseWrites with
    | (.error f, s) => (.error f, s)
    | (.ok (), s) => (.ok (), { s with context := { s.context with phase := .aborted } })
  else (.ok (), s)

def abort (s : Scope) (c : Conflict) (site : AbortSite) : Progress × Scope :=
  (.standing (.abort s.context.owner s.context.block c) (.abort c site), s)

def finishAbort (s : Scope) (c : Conflict) (site : AbortSite) : Progress × Scope :=
  match s.context.tally.countAbort c with
  | .error f => (.faulted f, s)
  | .ok tally =>
    match { s with context := { s.context with tally, lastConflict := some c } }.rollback with
    | (.error f, s) => (.faulted f, s)
    | (.ok (), s) =>
      match site with
      | .access => (.answered (.aborted c), s)
      | .commit => (.answered (.verdict false), s)
      | .block => (.commitLost, s)

end Scope

end TransactionalMemory
