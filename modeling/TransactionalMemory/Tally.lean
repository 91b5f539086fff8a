import TransactionalMemory.Conflict
import TransactionalMemory.Fault
import TransactionalMemory.Mode
import TransactionalMemory.Word.Binary

/-! # Counters of commits and aborts

Each transaction context counts for itself and hands its counters over to the runtime now and then.
The counters are 64 bits wide, and a full one is a fault.
-/

namespace TransactionalMemory

/-- Counters of one or more transaction contexts. -/
structure Tally where
  /-- Attempts that committed. -/
  commits : Nat := 0
  /-- Those among them that wrote nothing. -/
  readOnly : Nat := 0
  /-- Those among them that were declared to write nothing. -/
  declaredReadOnly : Nat := 0
  /-- Those among them that were elastic. -/
  elastic : Nat := 0
  /-- Attempts that aborted, by cause. -/
  aborts : Vector Nat 6 := .replicate 6 0
  /-- Atomic blocks that used up their attempts. -/
  exhausted : Nat := 0
  /-- Atomic blocks that were stopped by their caller. -/
  abandoned : Nat := 0
  deriving DecidableEq, Repr

namespace Tally

def abortsFor (t : Tally) (c : Conflict) : Nat := t.aborts[c.index]

def abortSum (t : Tally) : Nat := t.aborts.foldl (· + ·) 0

def fits (t : Tally) : Bool :=
  t.commits < wordRange && t.readOnly < wordRange && t.declaredReadOnly < wordRange &&
    t.elastic < wordRange && t.aborts.all (· < wordRange) && t.exhausted < wordRange &&
    t.abandoned < wordRange

/-- A tally that has grown, a fault if one of its counters does not fit. -/
def checked (t : Tally) : Except Fault Tally := if t.fits then .ok t else .error .overflow

def countCommit (t : Tally) (mode : Mode) (wroteNothing : Bool) : Except Fault Tally :=
  checked
    { t with
      commits := t.commits + 1
      readOnly := t.readOnly + if wroteNothing then 1 else 0
      declaredReadOnly := t.declaredReadOnly + if mode = .readOnlyRegular then 1 else 0
      elastic := t.elastic + if mode = .elastic then 1 else 0 }

def countAbort (t : Tally) (c : Conflict) : Except Fault Tally :=
  checked { t with aborts := t.aborts.set c.index (t.abortsFor c + 1) }

def countExhausted (t : Tally) : Except Fault Tally :=
  checked { t with exhausted := t.exhausted + 1 }

def countAbandoned (t : Tally) : Except Fault Tally :=
  checked { t with abandoned := t.abandoned + 1 }

def add (a b : Tally) : Except Fault Tally :=
  checked
    { commits := a.commits + b.commits
      readOnly := a.readOnly + b.readOnly
      declaredReadOnly := a.declaredReadOnly + b.declaredReadOnly
      elastic := a.elastic + b.elastic
      aborts := a.aborts.zipWith (· + ·) b.aborts
      exhausted := a.exhausted + b.exhausted
      abandoned := a.abandoned + b.abandoned }

def totalAborts (t : Tally) : Except Fault Nat := counter t.abortSum

/-- The share of the finished attempts that aborted, as the bit pattern of a double: both counts are
    rounded before they are divided.  It is zero if there was no attempt. -/
def abortRate (t : Tally) : Except Fault Nat := do
  let aborted ← t.totalAborts
  let attempts ← counter (t.commits + aborted)
  let double := BinaryFormat.double
  return if attempts = 0 then 0 else double.quotient (double.ofNat aborted) (double.ofNat attempts)

/-- The counters in words; causes and endings that did not occur are left out. -/
def text (t : Tally) : Except Fault String := do
  let total ← t.totalAborts
  let causes := Conflict.all.filterMap fun c =>
    if t.abortsFor c = 0 then none else some (", " ++ c.text ++ ": " ++ toString (t.abortsFor c))
  return s!"commits: {t.commits} (read-only {t.readOnly}, " ++
    s!"declared read-only {t.declaredReadOnly}, elastic {t.elastic})\n" ++
    s!"aborts: {total}" ++ String.join causes ++
    (if t.exhausted = 0 then "" else s!"\nexhausted: {t.exhausted}") ++
    (if t.abandoned = 0 then "" else s!"\nabandoned: {t.abandoned}")

end Tally

end TransactionalMemory
