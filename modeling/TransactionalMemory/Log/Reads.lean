import TransactionalMemory.Log.Redo

/-! # Reads under watch

A read is remembered with the stamp that its slot carried.  It is current as long as the slot still
carries that stamp, or is held by the reader itself, which took it over with that stamp.

There are two logs of reads.  The read log keeps every read, repeated ones too.  The window keeps
the most recent ones only: one more pushes the oldest out.
-/

namespace TransactionalMemory

/-- A read: the location, its slot, and the stamp that the slot carried. -/
structure ReadEntry where
  location : Location
  slot : Nat
  observed : Nat
  deriving DecidableEq, Repr

/-- Whether a read is current for an owner with the given redo log. -/
def ReadEntry.isCurrent (e : ReadEntry) (t : LockTable) (owner : OwnerId) (writes : RedoLog) :
    Except Fault Bool := do
  match ← t.load e.slot with
  | .free stamp => return stamp = e.observed
  | .held holder =>
    if holder = owner then return writes.stamp? e.slot = some e.observed else return false

def allCurrent (t : LockTable) (owner : OwnerId) (writes : RedoLog) :
    List ReadEntry → Except Fault Bool
  | [] => .ok true
  | e :: rest => do
    if ← e.isCurrent t owner writes then allCurrent t owner writes rest else return false

/-- All reads of an attempt, oldest first. -/
structure ReadLog where
  entries : List ReadEntry := []
  deriving DecidableEq, Repr

namespace ReadLog

def size (log : ReadLog) : Nat := log.entries.length

def push (log : ReadLog) (e : ReadEntry) : ReadLog := ⟨log.entries ++ [e]⟩

def contains (log : ReadLog) (l : Location) : Bool := log.entries.any (·.location = l)

def validate (log : ReadLog) (t : LockTable) (owner : OwnerId) (writes : RedoLog) :
    Except Fault Bool :=
  allCurrent t owner writes log.entries

end ReadLog

/-- The most recent reads of an attempt, oldest first, never more than the capacity. -/
structure Window where
  capacity : Nat
  entries : List ReadEntry := []
  deriving DecidableEq, Repr

namespace Window

/-- An empty window.  Its room is set aside at once, 32 bytes for each read. -/
def new? (capacity : Nat) : Except Fault Window :=
  if capacity = 0 then .error .emptyWindow
  else if 1 <<< 63 ≤ 32 * capacity then .error .capacity
  else .ok { capacity }

def size (w : Window) : Nat := w.entries.length

/-- Adds a read, which pushes the oldest one out of a full window. -/
def push (w : Window) (e : ReadEntry) : Window :=
  let kept := if w.entries.length = w.capacity then w.entries.tail else w.entries
  { w with entries := kept ++ [e] }

def contains (w : Window) (l : Location) : Bool := w.entries.any (·.location = l)

def validate (w : Window) (t : LockTable) (owner : OwnerId) (writes : RedoLog) :
    Except Fault Bool :=
  allCurrent t owner writes w.entries

def clear (w : Window) : Window := { w with entries := [] }

/-- Moves the reads of the window, oldest first, to the end of a read log. -/
def drainInto (w : Window) (log : ReadLog) : Window × ReadLog :=
  (w.clear, ⟨log.entries ++ w.entries⟩)

end Window

end TransactionalMemory
