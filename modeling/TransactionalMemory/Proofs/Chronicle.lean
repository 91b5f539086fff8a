import TransactionalMemory.Proofs.Words
import TransactionalMemory.System

/-! # What happened in a run

A chronicle is a system together with what can be told about the run that led to it: the accesses
that the current attempt of each context has completed, and the attempts that have committed, in the
order of their commits.  Everything in it is read off the actions, the responses and the states
before and after a step, so it adds nothing to the system (`Chronicle.system_run`).

The yardstick for these records is sequential execution: an attempt that runs alone, directly on the
words of memory (`execute`), where each read returns the word that is there (`Replays`).
-/

namespace TransactionalMemory

/-! ## Accesses -/

/-- Where the value of a read came from. -/
inductive Source where
  /-- From the attempt's own log of writes. -/
  | buffered
  /-- From memory, under a slot that the attempt held for another location. -/
  | held
  /-- From memory, under a slot that the attempt did not hold. -/
  | free
  deriving DecidableEq, Repr

/-- A read that was answered: the value, where it came from, and what the clock was. -/
structure Reading where
  location : Location
  kind : Kind
  value : Value
  source : Source
  time : Nat
  deriving DecidableEq, Repr

/-- The value that was read is the one in the given words. -/
def Reading.HoldsIn (q : Reading) (m : Words) : Prop := Value.decode (m q.location) q.kind = q.value

instance (q : Reading) (m : Words) : Decidable (q.HoldsIn m) := inferInstanceAs (Decidable (_ = _))

/-- An access that was completed. -/
inductive Access where
  | read (q : Reading)
  | write (l : Location) (v : Value)
  deriving DecidableEq, Repr

/-- The read behind an access, if its value came from memory. -/
def Access.fromMemory? : Access → Option Reading
  | read q => if q.source = .buffered then none else some q
  | write .. => none

def Access.isRead : Access → Bool
  | read _ => true
  | write .. => false

/-- The reads whose values came from memory. -/
def fromMemory (accesses : List Access) : List Reading := accesses.filterMap Access.fromMemory?

/-! ## Sequential execution -/

def Access.perform : Access → Words → Words
  | read _, m => m
  | write l v, m => m.put l v.encode

/-- The words after accesses that go directly to memory, one after the other. -/
def execute (accesses : List Access) (m : Words) : Words := accesses.foldl (fun m a => a.perform m) m

/-- Executed directly on the given words, the accesses read what they read. -/
def Replays (m : Words) : List Access → Prop
  | [] => True
  | .read q :: rest => q.HoldsIn m ∧ Replays m rest
  | .write l v :: rest => Replays (m.put l v.encode) rest

@[simp] theorem execute_append (accesses rest : List Access) (m : Words) :
    execute (accesses ++ rest) m = execute rest (execute accesses m) := List.foldl_append

@[simp] theorem execute_read (q : Reading) (m : Words) : execute [.read q] m = m := rfl

@[simp] theorem execute_write (l : Location) (v : Value) (m : Words) :
    execute [.write l v] m = m.put l v.encode := rfl

theorem replays_append_read {q : Reading} : ∀ (accesses : List Access) (m : Words),
    Replays m (accesses ++ [.read q]) ↔ Replays m accesses ∧ q.HoldsIn (execute accesses m)
  | [], m => by simp [Replays, execute]
  | .read r :: rest, m => by
    have ih := replays_append_read (q := q) rest m
    simp only [List.cons_append, Replays, ih, and_assoc]
    rfl
  | .write l v :: rest, m => by
    have ih := replays_append_read (q := q) rest (m.put l v.encode)
    simp only [List.cons_append, Replays, ih]
    rfl

theorem replays_append_write {l : Location} {v : Value} : ∀ (accesses : List Access) (m : Words),
    Replays m (accesses ++ [.write l v]) ↔ Replays m accesses
  | [], m => by simp [Replays]
  | .read r :: rest, m => by
    have ih := replays_append_write (l := l) (v := v) rest m
    simp only [List.cons_append, Replays, ih]
  | .write k u :: rest, m => by
    have ih := replays_append_write (l := l) (v := v) rest (m.put k u.encode)
    simp only [List.cons_append, Replays, ih]

/-! ## Recent reads -/

/-- The last `k` elements of a list, all of them if there are no more. -/
def latest {α : Type} (k : Nat) (l : List α) : List α := l.drop (l.length - k)

/-- The reads that an elastic attempt with a window of `k` answers for when it commits: the last `k`
    before its first write, and all from then on whose values came from memory. -/
def guarded (k : Nat) (accesses : List Access) : List Reading :=
  latest k (fromMemory (accesses.takeWhile Access.isRead)) ++
    fromMemory (accesses.dropWhile Access.isRead)

/-! ## Attempts and commits -/

/-- What the current attempt of a context has done. -/
structure Attempt where
  /-- How many attempts the context began before. -/
  number : Nat := 0
  accesses : List Access := []
  /-- Its client has called for an extension of the snapshot. -/
  extended : Bool := false
  /-- An abort of the attempt met a fault on the way, and left it standing. -/
  broken : Bool := false

/-- A commit: the clock after it, which is its stamp if it wrote, and the context and the attempt as
    they were just before. -/
structure Commit where
  stamp : Nat
  context : Context
  attempt : Attempt

/-- A context at the shared runtime, with the history of both. -/
structure Seat where
  runtime : Runtime
  context : Context
  /-- What is left of the call that stands at an event. -/
  pending : Option Pending
  attempt : Attempt
  commits : List Commit
  readOnly : List Commit

namespace Seat

variable {α ε : Type}

/-- Where a read of a location gets its value from. -/
def source (d : Seat) (l : Location) : Source :=
  let slot := d.runtime.table.slotOf l
  if (d.context.writes.value? slot l).isSome then .buffered
  else if d.context.writes.owns slot then .held
  else .free

/-- The record of a read that is answered now. -/
def reading (d : Seat) (l : Location) (kind : Kind) (v : Value) : Reading :=
  { location := l, kind, value := v, source := d.source l, time := d.runtime.clock.now }

def access? (d : Seat) : WorkerAction α ε → Response α ε → Option Access
  | .call (.read l kind), .replied (.value v) | .call (.load l kind), .replied (.value v) =>
    some (.read (d.reading l kind v))
  | .call (.write l v), .replied .done => some (.write l v)
  | .resume, .replied (.value v) =>
    match d.pending with
    | some (.extend _ (.loadHeld l kind)) | some (.extend _ (.recheck l kind ..)) =>
      some (.read (d.reading l kind v))
    | _ => none
  | _, _ => none

def begins : WorkerAction α ε → Response α ε → Bool
  | .call (.start ..), .replied .done | _, .attempt => true
  | _, _ => false

theorem begins_refused (action : WorkerAction α ε) (why : Refusal) :
    begins action (.refused why : Response α ε) = false := by
  cases action with
  | call request => cases request <;> rfl
  | _ => rfl

theorem begins_of_plain {action : WorkerAction α ε} {response : Response α ε}
    (call : ∀ block mode, action ≠ .call (.start block mode)) (other : response ≠ .attempt) :
    begins action response = false := by
  unfold begins
  split
  · exact absurd rfl (call _ _)
  · exact absurd rfl other
  · rfl

def asksToExtend : WorkerAction α ε → Response α ε → Bool
  | .call .extend, .refused _ => false
  | .call .extend, _ => true
  | _, _ => false

def breaksAbort (d : Seat) : Response α ε → Bool
  | .faulted _ => match d.pending with
    | some (.abort ..) => true
    | _ => false
  | _ => false

def attemptAfter (d : Seat) (action : WorkerAction α ε) (response : Response α ε) : Attempt :=
  if begins action response then { number := d.attempt.number + 1 }
  else { d.attempt with
    accesses := d.attempt.accesses ++ (d.access? action response).toList
    extended := d.attempt.extended || asksToExtend action response
    broken := d.attempt.broken || d.breaksAbort response }

/-- The seat after a step of its worker that gave the response, the runtime and the worker. -/
def next (d : Seat) (action : WorkerAction α ε) (response : Response α ε) (runtime : Runtime)
    (w : Worker) : Seat :=
  let commit : Commit := ⟨runtime.clock.now, d.context, d.attempt⟩
  let committed := d.context.phase = .active ∧ w.context.phase = .committed
  { runtime, context := w.context, pending := w.pending
    attempt := d.attemptAfter action response
    commits := if committed ∧ ¬ d.context.writes.isEmpty then d.commits ++ [commit] else d.commits
    readOnly := if committed ∧ d.context.writes.isEmpty then d.readOnly ++ [commit] else d.readOnly }

end Seat

/-! ## Chronicles -/

/-- A system and what has happened on it. -/
structure Chronicle where
  system : System
  attempts : OwnerId → Attempt := fun _ => {}
  commits : List Commit := []
  readOnly : List Commit := []

namespace Chronicle

variable {α ε : Type}

/-- A runtime over the given memory, with nobody on it yet. -/
def start (r : Runtime) (m : Memory) : Chronicle :=
  { system := { runtime := { r with memory := m } } }

def seat (t : Chronicle) (owner : OwnerId) (w : Worker) : Seat :=
  { runtime := t.system.runtime, context := w.context, pending := w.pending
    attempt := t.attempts owner, commits := t.commits, readOnly := t.readOnly }

def step (t : Chronicle) : Action α ε → Chronicle
  | .act owner action =>
    match t.system.worker? owner with
    | none => t
    | some w =>
      match w.step t.system.runtime action with
      | (response, runtime, w') =>
        let d := (t.seat owner w).next action response runtime w'
        { system := { t.system with runtime }.setWorker owner w'
          attempts := fun o => if o = owner then d.attempt else t.attempts o
          commits := d.commits
          readOnly := d.readOnly }
  | action => { t with system := (t.system.step action).2 }

def run (t : Chronicle) (actions : List (Action α ε)) : Chronicle := actions.foldl step t

@[simp] theorem run_nil (t : Chronicle) : t.run ([] : List (Action α ε)) = t := rfl

@[simp] theorem run_append (t : Chronicle) (actions rest : List (Action α ε)) :
    t.run (actions ++ rest) = (t.run actions).run rest := List.foldl_append

@[simp] theorem run_singleton (t : Chronicle) (a : Action α ε) : t.run [a] = t.step a := rfl

theorem run_snoc (t : Chronicle) (actions : List (Action α ε)) (a : Action α ε) :
    t.run (actions ++ [a]) = (t.run actions).step a := by
  rw [run_append, run_singleton]

@[simp] theorem system_step (t : Chronicle) (a : Action α ε) :
    (t.step a).system = (t.system.step a).2 := by
  cases a with
  | act owner action =>
    simp only [step, System.step, System.act]
    cases t.system.worker? owner <;> rfl
  | _ => rfl

theorem step_act {t : Chronicle} {owner : OwnerId} {action : WorkerAction α ε} {w : Worker}
    (here : t.system.worker? owner = some w) :
    t.step (.act owner action) =
      let out := w.step t.system.runtime action
      let d := (t.seat owner w).next action out.1 out.2.1 out.2.2
      { system := System.setWorker { t.system with runtime := out.2.1 } owner out.2.2
        attempts := fun o => if o = owner then d.attempt else t.attempts o
        commits := d.commits
        readOnly := d.readOnly } := by
  simp only [step, here]

/-- The record leaves the run as it is. -/
theorem system_run (t : Chronicle) (actions : List (Action α ε)) :
    (t.run actions).system = (t.system.run actions).2 := by
  induction actions generalizing t with
  | nil => rfl
  | cons a rest ih =>
    have rest := ih (t.step a)
    rw [system_step] at rest
    exact rest

end Chronicle

/-! ## Limits of a run -/

section

variable {α ε : Type}

def Action.target? : Action α ε → Option Location
  | .act _ (.call (.write l _)) => some l
  | _ => none

def Action.mode? : Action α ε → Option Mode
  | .act _ (.call (.start _ mode)) | .act _ (.enter _ mode) => some mode
  | _ => none

def Action.isAnnounce : Action α ε → Bool
  | .announce => true
  | _ => false

/-- A run within the limits of the machine: the fields that are written exist, the clock stays below
    the largest stamp, and there are owner ids for all contexts. -/
structure WithinLimits (s : System) (actions : List (Action α ε)) : Prop where
  fields : ∀ a ∈ actions, ∀ l ∈ a.target?, s.runtime.memory.Has l
  clock : ∀ n ≤ actions.length, (s.run (actions.take n)).2.runtime.clock.now < lockBit - 1
  owners : actions.countP Action.isAnnounce < lockBit

end

end TransactionalMemory
