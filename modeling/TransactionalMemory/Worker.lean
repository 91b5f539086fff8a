import TransactionalMemory.Call

/-! # Workers and atomic blocks

A worker owns a context and runs atomic blocks on it.  A block runs its body again and again, one
attempt each time, until an attempt commits or the block gives up: because the attempts that the
settings allow are used up, or because its caller, asked after each conflict, stops it.

The body and the caller's answer belong to the client, so a block is a conversation: the worker says
that an attempt began, the client says how the body ended, the worker asks about a conflict, the
client answers.  A body may use the context for anything, further blocks included, so the blocks of
a worker form a stack.
-/

namespace TransactionalMemory

inductive Control where
  | retry
  | stop
  deriving DecidableEq, Repr

structure Block where
  id : Nat
  mode : Mode
  attempts : Nat := 1
  /-- The conflict that the caller is asked about. -/
  question : Option Conflict := none
  deriving DecidableEq, Repr

/-- A context, the call on it that stands at an event, and its blocks, innermost first. -/
structure Worker where
  context : Context
  pending : Option Pending := none
  blocks : List Block := []
  deriving DecidableEq, Repr

/-- What a client can do with a worker. -/
inductive WorkerAction (α ε : Type) where
  | call (r : Request)
  | resume
  /-- Enter an atomic block. -/
  | enter (block : Nat) (mode : Mode)
  /-- The body of the innermost block has ended. -/
  | leave (result : BodyResult α ε)
  /-- The answer to the conflict of the innermost block. -/
  | decide (control : Control)
  /-- The body of the innermost block, or its caller who is asked about a conflict, has met a fault, which
      leaves the block too. -/
  | unwind
  deriving DecidableEq, Repr

/-- Why nothing was done. -/
inductive Refusal where
  | noContext
  /-- The context is in the middle of something. -/
  | busy
  /-- There is nothing that this could be the continuation of. -/
  | outOfTurn
  deriving DecidableEq, Repr

inductive Response (α ε : Type) where
  | replied (r : Reply)
  | faulted (f : Fault)
  | standing (e : Event)
  /-- An attempt of the innermost block began: its body is to run. -/
  | attempt
  /-- The innermost block asks what to do about a conflict. -/
  | question (c : Conflict)
  | ended (r : BlockResult α ε)
  | refused (r : Refusal)
  deriving DecidableEq, Repr

/-- Whether a call that stands at an event was made by a block and not by a client. -/
def Pending.isOfBlock : Pending → Bool
  | abort _ .block | failCommit .block | giveUp .. => true
  | _ => false

namespace Worker

variable {α ε : Type}

/-- The worker's context on the runtime. -/
def scope (w : Worker) (r : Runtime) : Scope := ⟨r, w.context⟩

/-- The innermost block and its conflict, if it waits for an answer. -/
def asking? (w : Worker) : Option (Block × Conflict) :=
  w.blocks.head?.bind fun b => b.question.map (b, ·)

/-- Whether the worker is inside a call, or waits for an answer to a conflict. -/
def isBusy (w : Worker) : Bool := w.pending.isSome || w.asking?.isSome

/-- Whether the body of the innermost block is running. -/
def inBody (w : Worker) : Bool := !w.isBusy && !w.blocks.isEmpty

/-- Whether the client runs for the innermost block: its body, or the caller who is asked. -/
def atClient (w : Worker) : Bool := w.pending.isNone && !w.blocks.isEmpty

/-- A response after which no call stands at an event. -/
def settle (w : Worker) (response : Response α ε) (s : Scope) : Response α ε × Runtime × Worker :=
  (response, s.runtime, { w with context := s.context, pending := none })

/-- A call that stands at an event. -/
def stand (w : Worker) (e : Event) (rest : Pending) (s : Scope) :
    Response α ε × Runtime × Worker :=
  (.standing e, s.runtime, { w with context := s.context, pending := some rest })

def close (w : Worker) (response : Response α ε) (s : Scope) : Response α ε × Runtime × Worker :=
  settle { w with blocks := w.blocks.tail } response s

def giveUp (w : Worker) (b : Block) (reason : GiveUpReason) (c : Conflict) (s : Scope) :
    Response α ε × Runtime × Worker :=
  let report : GaveUp := ⟨b.id, b.attempts⟩
  w.stand (.gaveUp reason report c) (.giveUp reason report) s

/-- An attempt of the innermost block ended in a conflict: the block gives up if that was the last
    attempt it is allowed, and asks its caller otherwise. -/
def afterConflict (w : Worker) (c : Conflict) (s : Scope) : Response α ε × Runtime × Worker :=
  match w.blocks with
  | [] => w.settle (.refused .outOfTurn) s
  | b :: rest =>
    if s.runtime.settings.retryBudget.any (· ≤ b.attempts) then w.giveUp b .exhausted c s
    else { w with blocks := { b with question := some c } :: rest }.settle (.question c) s

/-- What becomes of a call, made by the innermost block or by a client. -/
def advance (w : Worker) (ofBlock : Bool) : Progress × Scope → Response α ε × Runtime × Worker
  | (.answered r, s) => w.settle (.replied r) s
  | (.faulted f, s) => if ofBlock then w.close (.faulted f) s else w.settle (.faulted f) s
  | (.standing e rest, s) => w.stand e rest s
  | (.commitLost, s) => w.afterConflict .invalidCommit s

def resume (w : Worker) (rest : Pending) (r : Runtime) : Response α ε × Runtime × Worker :=
  match rest, (w.scope r).resume rest with
  | .giveUp _ report, (.answered _, s) => w.close (.ended (.failed report)) s
  | rest, p => w.advance rest.isOfBlock p

def enter (w : Worker) (block : Nat) (mode : Mode) (r : Runtime) :
    Response α ε × Runtime × Worker :=
  match (w.scope r).start block mode with
  | (.error f, s) => w.settle (.faulted f) s
  | (.ok (), s) => { w with blocks := { id := block, mode } :: w.blocks }.settle .attempt s

/-- Commits the attempt of the innermost block, which then ends with the given result. -/
def leaveBy (w : Worker) (result : BlockResult α ε) (r : Runtime) :
    Response α ε × Runtime × Worker :=
  match (w.scope r).commit .block with
  | (.answered (.verdict true), s) => w.close (.ended result) s
  | (.answered _, s) => w.afterConflict .invalidCommit s
  | p => w.advance true p

/-- Rolls back the attempt of the innermost block, whose body ended on a conflict.  If the engine has
    not met that conflict itself, the attempt is still active, and the conflict is counted here. -/
def leaveOnConflict (w : Worker) (c : Conflict) (r : Runtime) :
    Response α ε × Runtime × Worker :=
  let s := w.scope r
  let counted := if s.context.phase = .active then s.context.tally.countAbort c
    else .ok s.context.tally
  match counted with
  | .error f => w.close (.faulted f) s
  | .ok tally =>
    match { s with context := { s.context with tally } }.rollback with
    | (.error f, s) => w.close (.faulted f) s
    | (.ok (), s) => w.afterConflict c s

/-- Ends an attempt of the innermost block as its body ended.

It is assumed that no fault is on its way out of the thread at this point.  If one is, as when the block runs in
the clean-up after it, the attempt is rolled back first, so the body ends as if its last call were a rollback. -/
def leave (w : Worker) (result : BodyResult α ε) (r : Runtime) :
    Response α ε × Runtime × Worker :=
  match result with
  | .value a => w.leaveBy (.validated a) r
  | .failure e => w.leaveBy (.cancelled e) r
  | .conflict c => w.leaveOnConflict c r

/-- Goes on after a conflict of the innermost block as its caller says. -/
def decide (w : Worker) (b : Block) (c : Conflict) (control : Control) (r : Runtime) :
    Response α ε × Runtime × Worker :=
  match control with
  | .stop => w.giveUp b .abandoned c (w.scope r)
  | .retry =>
    let b := { b with attempts := b.attempts + 1, question := none }
    let w := { w with blocks := b :: w.blocks.tail }
    match (w.scope r).start b.id b.mode with
    | (.error f, s) => w.close (.faulted f) s
    | (.ok (), s) => w.settle .attempt s

/-- Leaves the innermost block, whose client met a fault: the attempt is rolled back.  Nothing is left to roll
    back if the client was asked about a conflict. -/
def unwind (w : Worker) (r : Runtime) : Response α ε × Runtime × Worker :=
  match (w.scope r).rollback with
  | (.error f, s) => w.close (.faulted f) s
  | (.ok (), s) => w.close (.replied .done) s

/-- An action that comes at the wrong time changes nothing. -/
def refuse (w : Worker) (why : Refusal) (r : Runtime) : Response α ε × Runtime × Worker :=
  (.refused why, r, w)

def step (w : Worker) (r : Runtime) : WorkerAction α ε → Response α ε × Runtime × Worker
  | .call request =>
    if w.isBusy then w.refuse .busy r else w.advance false ((w.scope r).perform request)
  | .resume =>
    match w.pending with
    | some rest => w.resume rest r
    | none => w.refuse .outOfTurn r
  | .enter block mode => if w.isBusy then w.refuse .busy r else w.enter block mode r
  | .leave result => if w.inBody then w.leave result r else w.refuse .outOfTurn r
  | .decide control =>
    match w.pending, w.asking? with
    | none, some (b, c) => w.decide b c control r
    | _, _ => w.refuse .outOfTurn r
  | .unwind => if w.atClient then w.unwind r else w.refuse .outOfTurn r

end Worker

end TransactionalMemory
