import Mathlib.Logic.Relation
import TransactionalMemory.Proofs.Chronicle

/-! # Moves

Every step of a worker comes down to a few moves of its seat: counting, standing still, moving the
bound of the snapshot, reading, writing, and beginning or ending an attempt.  A move states the
guards that the code has checked by the time it happens, and nothing of the control flow that led
there.  What all steps preserve is therefore proved once for each move, and the calls are only shown
to be made of moves.
-/

namespace TransactionalMemory

/-- The record of an attempt with one more access. -/
def Attempt.add (a : Attempt) (x : Access) : Attempt := { a with accesses := a.accesses ++ [x] }

namespace Seat

abbrev slotOf (d : Seat) (l : Location) : Nat := d.runtime.table.slotOf l

def withContext (d : Seat) (c : Context) : Seat := { d with context := c }

/-- Another table and another log of writes at the seat. -/
def withLocks (d : Seat) (table : LockTable) (writes : RedoLog) : Seat :=
  { d with runtime := { d.runtime with table }, context := { d.context with writes } }

/-- The slot of a location is taken, and the log of writes is another one. -/
def take (d : Seat) (l : Location) (writes : RedoLog) : Seat :=
  d.withLocks (d.runtime.table.set (d.slotOf l) (.held d.context.owner)) writes

/-- The seat after an access, with no call at an event. -/
def did (d : Seat) (a : Access) : Seat := { d with pending := none, attempt := d.attempt.add a }

/-- The commit of the attempt, in the state that it is in. -/
def commit (d : Seat) (stamp : Nat) : Commit := ⟨stamp, d.context, d.attempt⟩

/-- Whether the reads under watch for good are current. -/
def ReadsCurrent (d : Seat) : Prop :=
  d.context.reads.validate d.runtime.table d.context.owner d.context.writes = .ok true

/-- Whether the most recent reads are current. -/
def WindowCurrent (d : Seat) : Prop :=
  d.context.window.validate d.runtime.table d.context.owner d.context.writes = .ok true

/-- What a call has made sure of when it stands still to move the bound. -/
def Ready (d : Seat) : AfterExtension → Prop
  | .answer => d.attempt.extended = true
  | .loadHeld l _ =>
    d.context.phase = .active ∧ d.context.writes.owns (d.slotOf l) = true ∧
      d.context.writes.value? (d.slotOf l) l = none
  | .recheck l kind slot stamp v =>
    d.context.phase = .active ∧ d.context.isFast = false ∧ slot = d.slotOf l ∧
      d.context.writes.stamp? slot = none ∧ d.runtime.table.word slot = .free stamp ∧
      d.runtime.memory.peek l kind = .ok v

end Seat

def Pending.isAbort : Option Pending → Prop
  | some (.abort ..) => True
  | _ => False

def Pending.isExtension : Option Pending → Prop
  | some (.extend ..) => True
  | _ => False

/-- The smallest changes of a seat.  Attempts begin in an allowed mode only. -/
inductive Move (allowed : Mode → Prop) : Seat → Seat → Prop where
  /-- Counters grow, the clock among them, and remarks on the attempt are added. -/
  | count {d : Seat} (now : Nat) (published tally : Tally) (conflict : Option Conflict)
      (extended broken : Bool) (later : d.runtime.clock.now ≤ now) (small : now < lockBit)
      (stillExtended : d.attempt.extended = true → extended = true)
      (stillBroken : d.attempt.broken = true → broken = true) :
      Move allowed d
        { d with
          runtime := { d.runtime with clock := ⟨now⟩, published }
          context := { d.context with tally, lastConflict := conflict }
          attempt := { d.attempt with extended, broken } }
  /-- A call stands still, or goes on to stand still elsewhere, or is over. -/
  | turn {d : Seat} (next : Option Pending) (noExtension : ¬ Pending.isExtension next)
      (steady : d.context.phase = .active → Pending.isAbort d.pending →
        Pending.isAbort next ∨ d.attempt.broken = true) :
      Move allowed d { d with pending := next }
  /-- A call stands still before the bound moves. -/
  | suspend {d : Seat} (next : AfterExtension) (free : d.pending = none) (current : d.ReadsCurrent)
      (ready : d.Ready next) :
      Move allowed d { d with pending := some (.extend d.runtime.clock.now next) }
  /-- The bound moves. -/
  | adopt {d : Seat} (candidate : Nat) (next : AfterExtension)
      (waiting : d.pending = some (.extend candidate next)) :
      Move allowed d { d.withContext { d.context with upper := candidate } with pending := none }
  /-- The bound of an elastic attempt moves at once. -/
  | slide {d : Seat} (free : d.pending = none) (fast : d.context.isFast = true)
      (current : d.WindowCurrent) :
      Move allowed d (d.withContext { d.context with upper := d.runtime.clock.now })
  | readOwn {d : Seat} (l : Location) (kind : Kind) (v : Value) (free : d.pending = none)
      (logged : d.context.writes.value? (d.slotOf l) l = some v) :
      Move allowed d (d.did (.read (d.reading l kind (v.reinterpret kind))))
  | readHeld {d : Seat} (l : Location) (kind : Kind) (v : Value) (stamp : Nat) (free : d.pending = none)
      (held : d.context.writes.stamp? (d.slotOf l) = some stamp)
      (unlogged : d.context.writes.value? (d.slotOf l) l = none)
      (recent : stamp ≤ d.context.upper) (loaded : d.runtime.memory.peek l kind = .ok v) :
      Move allowed d (d.did (.read (d.reading l kind v)))
  /-- A read of memory under a free slot, logged for good. -/
  | readFree {d : Seat} (l : Location) (kind : Kind) (v : Value) (stamp : Nat) (free : d.pending = none)
      (slow : d.context.isFast = false) (unheld : d.context.writes.stamp? (d.slotOf l) = none)
      (word : d.runtime.table.word (d.slotOf l) = .free stamp) (recent : stamp ≤ d.context.upper)
      (loaded : d.runtime.memory.peek l kind = .ok v) :
      Move allowed d
        ((d.withContext { d.context with reads := d.context.reads.push ⟨l, d.slotOf l, stamp⟩ }).did
          (.read (d.reading l kind v)))
  /-- A read of memory under a free slot, logged in the window. -/
  | readFast {d : Seat} (l : Location) (kind : Kind) (v : Value) (stamp : Nat) (free : d.pending = none)
      (fast : d.context.isFast = true) (unheld : d.context.writes.stamp? (d.slotOf l) = none)
      (word : d.runtime.table.word (d.slotOf l) = .free stamp) (recent : stamp ≤ d.context.upper)
      (loaded : d.runtime.memory.peek l kind = .ok v) :
      Move allowed d
        ((d.withContext { d.context with window := d.context.window.push ⟨l, d.slotOf l, stamp⟩ }).did
          (.read (d.reading l kind v)))
  | writeHeld {d : Seat} (l : Location) (v : Value) (writes : RedoLog) (free : d.pending = none)
      (exist : d.runtime.memory.Has l) (word : d.runtime.table.word (d.slotOf l) = .held d.context.owner)
      (logged : d.context.writes.append (d.slotOf l) l v none = .ok writes) :
      Move allowed d ((d.withContext { d.context with writes }).did (.write l v))
  | writeFree {d : Seat} (l : Location) (v : Value) (stamp : Nat) (writes : RedoLog)
      (free : d.pending = none) (active : d.context.phase = .active) (exist : d.runtime.memory.Has l)
      (slow : d.context.isFast = false) (word : d.runtime.table.word (d.slotOf l) = .free stamp)
      (logged : d.context.writes.append (d.slotOf l) l v (some stamp) = .ok writes) :
      Move allowed d ((d.take l writes).did (.write l v))
  /-- The first write of an elastic attempt, which moves the window to the read log. -/
  | writeFirst {d : Seat} (l : Location) (v : Value) (stamp : Nat) (writes : RedoLog)
      (free : d.pending = none) (active : d.context.phase = .active) (exist : d.runtime.memory.Has l)
      (fast : d.context.isFast = true) (word : d.runtime.table.word (d.slotOf l) = .free stamp)
      (logged : d.context.writes.append (d.slotOf l) l v (some stamp) = .ok writes) :
      Move allowed d (((d.take l writes).withContext (d.take l writes).context.drainWindow).did
        (.write l v))
  /-- A write that takes its slot and finds that a read was overtaken. -/
  | writeStale {d : Seat} (l : Location) (v : Value) (stamp : Nat) (writes : RedoLog) (c : Conflict)
      (free : d.pending = none) (active : d.context.phase = .active) (exist : d.runtime.memory.Has l)
      (word : d.runtime.table.word (d.slotOf l) = .free stamp)
      (logged : d.context.writes.append (d.slotOf l) l v (some stamp) = .ok writes)
      (stale : d.context.mode = .elastic ∨ d.context.upper < stamp ∧ d.context.hasRead l = true) :
      Move allowed d
        { d.take l writes with pending := some (.abort c .access) }
  | begin {d : Seat} (block : Nat) (mode : Mode) (table : LockTable) (free : d.pending = none)
      (may : allowed mode) (back : d.context.writes.rollback d.runtime.table = (.ok (), {}, table)) :
      Move allowed d
        { d.withLocks table {} with
          context := (Scope.fresh ⟨d.runtime, { d.context with writes := {} }⟩ block mode).context
          pending := none
          attempt := { number := d.attempt.number + 1 } }
  | abandon {d : Seat} (table : LockTable) (active : d.context.phase = .active)
      (noExtension : ¬ Pending.isExtension d.pending)
      (back : d.context.writes.rollback d.runtime.table = (.ok (), {}, table)) :
      Move allowed d ((d.withLocks table {}).withContext
        { d.context with writes := {}, phase := .aborted })
  | commitReads {d : Seat} (free : d.pending = none) (active : d.context.phase = .active)
      (nothing : d.context.writes.isEmpty = true) :
      Move allowed d
        { d.withContext { d.context with phase := .committed } with
          pending := none
          readOnly := d.readOnly ++ [d.commit d.runtime.clock.now] }
  | commitWrites {d : Seat} (stamp : Nat) (table : LockTable) (memory : Memory)
      (free : d.pending = none) (active : d.context.phase = .active)
      (wrote : d.context.writes.isEmpty = false) (next : stamp = d.runtime.clock.now + 1)
      (small : stamp < lockBit)
      (checked : d.runtime.clock.now = d.context.lower ∨ d.ReadsCurrent)
      (stored : d.context.writes.commit stamp d.runtime.table d.runtime.memory =
        (.ok (), {}, table, memory)) :
      Move allowed d
        { d with
          runtime := { d.runtime with clock := ⟨stamp⟩, table, memory }
          context := { d.context with writes := {}, phase := .committed }
          pending := none
          commits := d.commits ++ [d.commit stamp] }

/-- Any number of moves. -/
abbrev Moves (allowed : Mode → Prop) : Seat → Seat → Prop := Relation.ReflTransGen (Move allowed)

end TransactionalMemory
