/-! # Faults

A fault is the end of a call that neither answers nor aborts: a broken promise of the caller, a
counter that is full, or an assertion about the runtime's own state.  What the call changed before
it met the fault stays changed, so a fault is not an error to recover from but a point of the run.
-/

namespace TransactionalMemory

/-- Counters, stamps and addresses are 64 bits wide. -/
def wordRange : Nat := 1 <<< 64

/-- Why a call ended without an answer. -/
inductive Fault where
  /-- A sequence of `length` elements has none at `index`. -/
  | outOfBounds (length index : Nat)
  /-- A typed handle was asked for on a field that the object does not have. -/
  | noSuchField (offset length : Nat)
  | overflow
  /-- More room was asked for than can be addressed. -/
  | capacity
  | tableBits (bits : Nat)
  | emptyWindow
  /-- The id cannot name an owner of locks. -/
  | ownerId (id : Nat)
  /-- A stamp may not use the bit that marks a held slot. -/
  | stampTooLarge
  /-- Only a held slot can be released. -/
  | releaseOfFreeSlot
  /-- A slot came up as held by the writer, yet its log holds no lock on it. -/
  | writeWithoutLock (slot : Nat)
  /-- A slot came up as held by the reader, yet its log holds no lock on it. -/
  | readWithoutLock (slot : Nat)
  /-- The bound of a snapshot moved, but not up to the stamp that it had to reach. -/
  | boundBelowStamp
  /-- An access after the attempt was rolled back. -/
  | usedAfterRollback
  /-- An access before the first attempt or after a commit. -/
  | usedOutsideAttempt
  | commitBeforeAttempt
  /-- The body of an atomic block, or a caller that insisted on a result, gave up with this text. -/
  | raised (text : String)
  deriving DecidableEq, Repr

def Fault.text : Fault → String
  | outOfBounds length index =>
      s!"index out of bounds: the len is {length} but the index is {index}"
  | noSuchField offset length =>
      s!"field {offset} out of bounds for object of {length} fields"
  | overflow => "attempt to add with overflow"
  | capacity => "capacity overflow"
  | tableBits bits => s!"lock table bits out of range: {bits}"
  | emptyWindow => "elastic window must hold at least one read"
  | ownerId id => s!"invalid owner id {id}"
  | stampTooLarge => "assertion failed: timestamp & LOCK_BIT == 0"
  | releaseOfFreeSlot => "assertion failed: matches!(self.load(slot), LockWord::Locked(_))"
  | writeWithoutLock slot => s!"write to slot {slot} without holding its lock"
  | readWithoutLock slot =>
      "internal error: entered unreachable code: " ++
        s!"slot {slot} is held by its reader but missing from the write set"
  | boundBelowStamp => "assertion failed: before <= self.ub"
  | usedAfterRollback => "STM: transaction context used after rollback"
  | usedOutsideAttempt => "STM: transaction context used outside of an attempt"
  | commitBeforeAttempt => "STM: commit without init"
  | raised text => text

/-- A counter's new value, a fault if it takes more than 64 bits. -/
def counter (n : Nat) : Except Fault Nat :=
  if n < wordRange then .ok n else .error .overflow

end TransactionalMemory
