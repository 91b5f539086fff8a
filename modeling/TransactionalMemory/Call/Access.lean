import TransactionalMemory.Call.ReadLoop

/-! # Accesses to fields

A read looks for the attempt's own write first.  Under a slot that the attempt holds it can load the field
at once; under any other it runs the read loop, which logs the read with the stamp of its slot.  A write
takes its slot at once and stores nothing.
-/

namespace TransactionalMemory.Scope

/-! ## Reading -/

/-- Why the context cannot be used for an access right now, if so: an aborted attempt repeats its
    conflict, and the other ends of an attempt are faults. -/
def obstacle? (s : Scope) : Option Progress :=
  match s.context.phase, s.context.lastConflict with
  | .active, _ => none
  | .aborted, some c => some (.answered (.aborted c))
  | .aborted, none => some (.faulted .usedAfterRollback)
  | .uninitialized, _ | .committed, _ => some (.faulted .usedOutsideAttempt)

/-- Moves the bound of the snapshot to the clock on behalf of the caller. -/
def extend (s : Scope) : Progress × Scope :=
  s.tryExtend .answer fun s => (.answered (.verdict false), s)

def loadHeld (s : Scope) (l : Location) (kind : Kind) : Progress × Scope :=
  match s.runtime.memory.peek l kind with
  | .error f => (.faulted f, s)
  | .ok v => (.answered (.value v), s)

/-- Reads a field: the attempt's own write if there is one, else memory.  Under a slot that the
    attempt holds for another location, memory cannot change, but it may be newer than the
    snapshot. -/
def load (s : Scope) (l : Location) (kind : Kind) : Progress × Scope :=
  match s.obstacle? with
  | some p => (p, s)
  | none =>
    let slot := s.runtime.table.slotOf l
    match s.context.writes.stamp? slot with
    | none => s.loadFree l kind slot
    | some stamp =>
      match s.context.writes.value? slot l with
      | some v => (.answered (.value (v.reinterpret kind)), s)
      | none =>
        if stamp ≤ s.context.upper then s.loadHeld l kind
        else s.tryExtend (.loadHeld l kind) fun s => s.abort .extendFailed .access

/-- Looks at the lock of a field: it must not be another owner's. -/
def probe (s : Scope) (l : Location) : Progress × Scope :=
  match s.obstacle? with
  | some p => (p, s)
  | none =>
    match s.runtime.table.check (s.runtime.table.slotOf l) s.context.owner with
    | .error f => (.faulted f, s)
    | .ok (.error contention) => s.abort contention.conflict .access
    | .ok (.ok _) => (.answered .done, s)

def read (s : Scope) (l : Location) (kind : Kind) : Progress × Scope :=
  match s.probe l with
  | (.answered .done, s) => s.load l kind
  | stopped => stopped

/-! ## Writing -/

/-- Logs the first write under a slot that was just taken, unless it shows that a read of the attempt
    was overtaken.  The first write of an elastic attempt puts its most recent reads under watch for
    good. -/
def writeTaken (s : Scope) (l : Location) (slot stamp : Nat) (v : Value) : Progress × Scope :=
  match s.context.writes.append slot l v (some stamp) with
  | .error f => (.faulted f, s)
  | .ok writes =>
    let wasFast := s.context.isFast
    let s := { s with context := { s.context with writes } }
    let c := s.context
    if c.upper < stamp && c.hasRead l then s.abort .writeAfterRead .access
    else if c.mode.isElastic then
      match c.window.validate s.runtime.table c.owner c.writes with
      | .error f => (.faulted f, s)
      | .ok false => s.abort .betweenReadAndWrite .access
      | .ok true =>
        (.answered .done, if wasFast then { s with context := c.drainWindow } else s)
    else (.answered .done, s)

/-- Logs a write to a field and takes its slot, unless another owner holds it. -/
def write (s : Scope) (l : Location) (v : Value) : Progress × Scope :=
  match s.obstacle? with
  | some p => (p, s)
  | none =>
    let slot := s.runtime.table.slotOf l
    match s.runtime.table.acquire slot s.context.owner with
    | .error f => (.faulted f, s)
    | .ok (.error contention, _) => s.abort contention.conflict .access
    | .ok (.ok .reentrant, _) =>
      match s.context.writes.append slot l v none with
      | .error f => (.faulted f, s)
      | .ok writes => (.answered .done, { s with context := { s.context with writes } })
    | .ok (.ok (.fresh stamp), table) =>
      { s with runtime := { s.runtime with table } }.writeTaken l slot stamp v

end TransactionalMemory.Scope
