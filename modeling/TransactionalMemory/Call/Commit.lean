import TransactionalMemory.Call.Basic

/-! # Commit

An attempt that wrote nothing commits at once.  One with writes takes the next stamp of the clock,
makes sure that its logged reads are current, stores its writes and gives its slots back under the
stamp.
-/

namespace TransactionalMemory.Scope

/-- Marks the attempt as committed and counts it. -/
def finishCommit (s : Scope) (wroteNothing : Bool) : Progress × Scope :=
  let s := { s with context := { s.context with phase := .committed } }
  match s.context.tally.countCommit s.context.mode wroteNothing with
  | .error f => (.faulted f, s)
  | .ok tally => (.answered (.verdict true), { s with context := { s.context with tally } })

/-- Stores the writes under a new stamp and gives the slots back. -/
def storeWrites (s : Scope) (stamp : Nat) : Progress × Scope :=
  match s.context.writes.commit stamp s.runtime.table s.runtime.memory with
  | (result, writes, table, memory) =>
    let s : Scope :=
      { runtime := { s.runtime with table, memory }, context := { s.context with writes } }
    match result with
    | .error f => (.faulted f, s)
    | .ok () => s.finishCommit false

/-- Commits an attempt with writes under its stamp.  Every logged read has to be current, and is
    surely so if no other commit came between: then the stamp is the one right after `lower`. -/
def commitAt (s : Scope) (stamp : Nat) (site : AbortSite) : Progress × Scope :=
  let c := s.context
  match counter (c.lower + 1) with
  | .error f => (.faulted f, s)
  | .ok next =>
    if stamp = next then s.storeWrites stamp
    else match c.reads.validate s.runtime.table c.owner c.writes with
      | .error f => (.faulted f, s)
      | .ok true => s.storeWrites stamp
      | .ok false =>
        (.standing (.commitInvalid c.owner c.block stamp c.lower c.reads.size) (.failCommit site), s)

/-- Tries to commit the attempt; one that has ended keeps its outcome.  Without writes there is
    nothing to check, because every read was checked when it happened. -/
def commit (s : Scope) (site : AbortSite) : Progress × Scope :=
  match s.context.phase with
  | .uninitialized => (.faulted .commitBeforeAttempt, s)
  | .committed => (.answered (.verdict true), s)
  | .aborted => (.answered (.verdict false), s)
  | .active =>
    if s.context.writes.isEmpty then s.finishCommit true
    else match s.runtime.clock.advance with
      | (result, clock) =>
        let s := { s with runtime := { s.runtime with clock } }
        match result with
        | .error f => (.faulted f, s)
        | .ok stamp => s.commitAt stamp site

end TransactionalMemory.Scope
