import Std.Data.TreeMap.Basic
import TransactionalMemory.Worker

/-! # Many workers on one runtime

A system is a runtime and the workers that exist on it.  One step is one action of one worker, up to
the next event at most, so a run of the system is a list of actions, and an interleaving of workers
is one such list.

A context comes to exist in two steps: its owner is announced by an event, and whoever listens may
act before the context can be used.
-/

namespace TransactionalMemory

/-- A runtime and its workers, by owner id. -/
structure System where
  runtime : Runtime
  workers : Std.TreeMap Nat Worker := ∅
  /-- Owners that are announced and whose contexts do not exist yet. -/
  announced : List OwnerId := []

inductive Action (α ε : Type) where
  | announce
  | register (owner : OwnerId)
  /-- Remove a context that is not in use, rolled back and with its counters published. -/
  | drop (owner : OwnerId)
  | act (owner : OwnerId) (action : WorkerAction α ε)
  deriving DecidableEq, Repr

namespace System

variable {α ε : Type}

def worker? (s : System) (owner : OwnerId) : Option Worker := s.workers[owner.id]?

def setWorker (s : System) (owner : OwnerId) (w : Worker) : System :=
  { s with workers := s.workers.insert owner.id w }

/-- The context of an owner, to look at from outside of its calls. -/
def context (s : System) (owner : OwnerId) : Except Refusal Context :=
  match s.worker? owner with
  | none => .error .noContext
  | some w => if w.isBusy then .error .busy else .ok w.context

def announce (s : System) : Response α ε × System :=
  match s.runtime.allocateOwner with
  | (.error f, runtime) => (.faulted f, { s with runtime })
  | (.ok owner, runtime) =>
    (.standing (.contextMade owner), { s with runtime, announced := owner :: s.announced })

def register (s : System) (owner : OwnerId) : Response α ε × System :=
  if owner ∈ s.announced then
    let s := { s with announced := s.announced.erase owner }
    match Window.new? s.runtime.settings.window with
    | .error f => (.faulted f, s)
    | .ok window => (.replied .done, s.setWorker owner { context := { owner, window } })
  else (.refused .outOfTurn, s)

/-- Removes a context: its attempt is rolled back, then its counters are published.  A fault on the
    way does not keep it. -/
def drop (s : System) (owner : OwnerId) : Response α ε × System :=
  match s.worker? owner with
  | none => (.refused .noContext, s)
  | some w =>
    if w.isBusy || !w.blocks.isEmpty then (.refused .busy, s)
    else
      let gone := { s with workers := s.workers.erase owner.id }
      match (w.scope s.runtime).rollback with
      | (.error f, scope) => (.faulted f, { gone with runtime := scope.runtime })
      | (.ok (), scope) =>
        match scope.publish with
        | (.error f, scope) => (.faulted f, { gone with runtime := scope.runtime })
        | (.ok (), scope) => (.replied .done, { gone with runtime := scope.runtime })

def act (s : System) (owner : OwnerId) (action : WorkerAction α ε) : Response α ε × System :=
  match s.worker? owner with
  | none => (.refused .noContext, s)
  | some w =>
    match w.step s.runtime action with
    | (response, runtime, w) => (response, { s with runtime }.setWorker owner w)

def step (s : System) : Action α ε → Response α ε × System
  | .announce => s.announce
  | .register owner => s.register owner
  | .drop owner => s.drop owner
  | .act owner action => s.act owner action

/-- A run: the responses to a list of actions, and the system after them. -/
def run (s : System) : List (Action α ε) → List (Response α ε) × System
  | [] => ([], s)
  | action :: rest =>
    let (response, s) := s.step action
    let (responses, s) := s.run rest
    (response :: responses, s)

end System

end TransactionalMemory
