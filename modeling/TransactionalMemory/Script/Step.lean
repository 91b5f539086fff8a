import TransactionalMemory.System

/-! # Scripts over a system

A script is a list of steps: requests to numbered contexts, atomic blocks whose bodies are scripts,
and steps that arm a listener.  A listener waits for an event with a given message and then runs its
own steps at that very point, in the middle of the call that logged the event.  So a script, though
it has one thread only, can describe any interleaving of segments.

What a script shows of the system is up to its author: `look`, `inspect` and `poke` carry functions,
and `ω` is the type of what they show.
-/

namespace TransactionalMemory

/-- A step of a body: in which attempts it runs, all of them if none are named, and whether a conflict
    that it meets is left to the rest of the body. -/
structure Line (σ : Type) where
  attempts : Option (List Nat) := none
  catches : Bool := false
  step : σ

/-- The forms of an atomic block: whether its body can fail, and whether its caller is asked about
    conflicts.  A caller who is not asked always wants another attempt. -/
structure BlockForm where
  fallible : Bool
  steered : Bool
  deriving DecidableEq, Repr

/-- A step of a script.  A `handle` is a field that has to exist, or else the step is a fault. -/
inductive Step (ω : Type) where
  /-- Make a context; its number is the next one. -/
  | create
  /-- Remove a context; there is nothing to do for one that does not exist. -/
  | drop (context : Nat)
  | call (context : Nat) (handle : Option Location) (request : Request)
  /-- Read a field, then write what the function makes of its value; the result may be the old
      value. -/
  | update (context : Nat) (handle : Option Location) (l : Location) (kind : Kind)
      (change : Value → Value) (wantsOld : Bool)
  /-- Run an atomic block.  A caller who is asked gives the listed answers, and stops the block when
      they have run out. -/
  | block (form : BlockForm) (context : Nat) (id : Nat) (mode : Mode)
      (body : List (Line (Step ω))) (answers : List Control)
  /-- Arm a listener, which is run once. -/
  | listen (message : String) (steps : List (Step ω))
  | raise (c : Conflict)
  | fail (text : String)
  | breakDown (text : String)
  | look (view : System → Except Fault ω)
  | inspect (context : Nat) (view : Runtime → Context → ω)
  | poke (change : Runtime → Except Fault ω × Runtime)

/-- How a block in a script ended. -/
inductive BlockEnd (ρ : Type) where
  | result (r : BlockResult (List ρ) String)
  | fault (f : Fault)
  | refused (why : Refusal)

/-- The result of a step. -/
inductive Result (ω : Type) where
  | silent
  | shown (w : ω)
  | owner (o : OwnerId)
  | replied (r : Reply)
  | fault (f : Fault)
  | refused (why : Refusal)
  /-- The results of the steps of each attempt, the conflicts that were asked about, and the end. -/
  | block (form : BlockForm) (attempts : List (List (Result ω))) (asked : List Conflict)
      (ended : BlockEnd (Result ω))

namespace Step

variable {ω : Type}

/-- Whether the step's result is part of what the body returns: it is a value read from a field. -/
def isKept : Step ω → Bool
  | call _ _ (.load ..) | call _ _ (.read ..) => true
  | update _ _ _ _ _ wantsOld => wantsOld
  | _ => false

/-- Whether the step is an access by the given context. -/
def isAccessOf (own : Nat) : Step ω → Bool
  | call context _ request => context = own && request.isAccess
  | update context .. => context = own
  | _ => false

end Step

namespace Result

variable {ω : Type}

/-- What a script shows of a response. -/
def ofResponse {α ε : Type} : Response α ε → Result ω
  | .replied r => replied r
  | .faulted f => fault f
  | .refused why => refused why
  | _ => silent

def fault? : Result ω → Option Fault
  | fault f | block _ _ _ (.fault f) => some f
  | _ => none

def conflict? : Result ω → Option Conflict
  | replied (.aborted c) => some c
  | _ => none

end Result

end TransactionalMemory
