import TransactionalMemory.System

/-! # Reads that others act inside of

A call of a worker lets others act where it stands at an event.  A reader lets them act between any two
steps of its read loop as well: after the value is loaded, before the bound of the snapshot moves, and
after it has moved.  It reads a field under a slot that its context does not hold.

Nobody learns of a read before it ends, so the worker of the reader stays in the system as it was, and the
reader has the context that the worker will have.
-/

namespace TransactionalMemory

variable {α ε : Type}

/-- A read, as far as it came, and the system that others act on meanwhile. -/
structure Reader where
  system : System
  context : Context
  course : Course

inductive ReaderMove (α ε : Type) where
  /-- The read makes one step. -/
  | own
  | other (a : Action α ε)
  deriving DecidableEq, Repr

namespace Reader

/-- A read of a context that is about to look at the slot. -/
def start (s : System) (c : Context) (l : Location) (kind : Kind) : Reader :=
  ⟨s, c, .reading l kind (s.runtime.table.slotOf l) .look⟩

def scope (x : Reader) : Scope := ⟨x.system.runtime, x.context⟩

def comesTo (x : Reader) (p : Course × Scope) : Reader :=
  ⟨{ x.system with runtime := p.2.runtime }, p.2.context, p.1⟩

/-- One step of the read.  Nothing happens to one that is answered. -/
def goOn (x : Reader) : Reader :=
  match x.course with
  | .reading l kind slot stage => x.comesTo (x.scope.readStep l kind slot stage)
  | .stopped (.standing _ rest) => x.comesTo (x.scope.takeUp rest)
  | .stopped _ => x

def step (x : Reader) : ReaderMove α ε → Reader
  | .own => x.goOn
  | .other a => { x with system := (x.system.step a).2 }

def run (x : Reader) (moves : List (ReaderMove α ε)) : Reader := moves.foldl step x

end Reader

end TransactionalMemory
