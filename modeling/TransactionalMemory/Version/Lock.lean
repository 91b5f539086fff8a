import TransactionalMemory.Conflict
import TransactionalMemory.Fault

/-! # Versioned locks

A slot of the lock table is either free, and then stamped with the last commit that wrote a
location under it, or held, and then it names its owner.  Both fit one word: the top bit marks a
held slot.
-/

namespace TransactionalMemory

/-- The bit that marks a held slot: stamps and owner ids stay below it. -/
def lockBit : Nat := 1 <<< 63

/-- Who holds a slot. -/
structure OwnerId where
  id : Nat
  deriving DecidableEq, Repr

/-- The short text of an owner. -/
def OwnerId.text (o : OwnerId) : String := s!"#{o.id}"

/-- The content of a slot. -/
inductive LockWord where
  /-- Free since the commit with this stamp. -/
  | free (stamp : Nat)
  /-- Held by a transaction. -/
  | held (owner : OwnerId)
  deriving DecidableEq, Repr

namespace LockWord

def ofRaw (raw : Nat) : LockWord :=
  if raw < lockBit then free raw else held ⟨raw - lockBit⟩

def toRaw : LockWord → Nat
  | free stamp => stamp
  | held owner => owner.id + lockBit

def stamp? : LockWord → Option Nat
  | free stamp => some stamp
  | held _ => none

def isHeldBy (w : LockWord) (owner : OwnerId) : Bool := w = held owner

def text : LockWord → String
  | free stamp => s!"Free({stamp})"
  | held owner => s!"Locked(OwnerId({owner.id}))"

end LockWord

/-- What stands in the way of a transaction: a slot and the other owner that holds it. -/
structure Contention where
  slot : Nat
  holder : OwnerId
  deriving DecidableEq, Repr

def Contention.text (c : Contention) : String := s!"slot {c.slot} is held by {c.holder.text}"

/-- The conflict that contention means for the attempt that meets it. -/
def Contention.conflict (_ : Contention) : Conflict := .lockedByOther

/-- How a slot came to be held by the one who asked for it. -/
inductive Acquired where
  /-- It was free until now, with this stamp, which a rollback has to put back. -/
  | fresh (previous : Nat)
  /-- It was held already. -/
  | reentrant
  deriving DecidableEq, Repr

end TransactionalMemory
