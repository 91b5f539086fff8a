import TransactionalMemory.Script.Step

/-! # Playing scripts

A player runs the steps of a script one after the other.  Whenever a call stands at an event, the
player records it, runs the first listener that waits for it, and lets the call go on.  Steps wait
for one another only finitely deep, so the player goes down to a fixed depth and no further.
-/

namespace TransactionalMemory

/-- A script at work: the system, the owners of the numbered contexts, the armed listeners, and the
    events and listeners' results of the current step. -/
structure Player (ω : Type) where
  system : System
  roster : Array OwnerId := #[]
  listeners : List (String × List (Step ω)) := []
  events : Array Event := #[]
  heard : Array (Result ω) := #[]

abbrev Play (ω : Type) := StateM (Player ω)

/-- The responses that a script meets: a body returns the results that it keeps, or a failure text. -/
abbrev ScriptResponse (ω : Type) := Response (List (Result ω)) String

/-- How the body of a block ended in one attempt. -/
structure BodyEnd (ω : Type) where
  results : List (Result ω)
  ending : Except Fault (BodyResult (List (Result ω)) String)

/-- A block at work: its steps and answers, and what its report will say. -/
structure BlockRun (ω : Type) where
  form : BlockForm
  context : Nat
  owner : OwnerId
  body : List (Line (Step ω))
  answers : List Control
  attempts : List (List (Result ω)) := []
  asked : List Conflict := []

def BlockRun.report {ω : Type} (run : BlockRun ω) (ended : BlockEnd (Result ω)) : Result ω :=
  .block run.form run.attempts run.asked ended

namespace Player

variable {ω : Type}

def act (action : Action (List (Result ω)) String) : Play ω (ScriptResponse ω) :=
  modifyGet fun p =>
    let (response, system) := p.system.step action
    (response, { p with system })

def worker? (p : Player ω) (context : Nat) : Option Worker :=
  p.roster[context]?.bind p.system.worker?

/-- The owner of a numbered context that can be used right now. -/
def ownerOf (context : Nat) : Play ω (Except Refusal OwnerId) := do
  let p ← get
  match p.roster[context]? with
  | none => return .error .noContext
  | some owner => return (p.system.context owner).map fun _ => owner

/-- Records an event and disarms the first listener that waits for it. -/
def takeListener (e : Event) : Play ω (List (Step ω)) :=
  modifyGet fun p =>
    let p := { p with events := p.events.push e }
    match p.listeners.find? (·.1 = e.message) with
    | none => ([], p)
    | some (_, steps) =>
      (steps, { p with listeners := p.listeners.eraseP (·.1 = e.message) })

/-- Refuses a handle on a field that does not exist. -/
def checkHandle (handle : Option Location) : Play ω (Except Fault Unit) := do
  match handle with
  | none => return .ok ()
  | some l => return (← get).system.runtime.memory.checkHandle l

/-- What the caller of a block answers to a conflict, and a record of it if the caller was asked. -/
def nextAnswer (run : BlockRun ω) (c : Conflict) : Control × BlockRun ω :=
  if run.form.steered then
    let run := { run with asked := run.asked ++ [c] }
    match run.answers with
    | [] => (.stop, run)
    | answer :: answers => (answer, { run with answers })
  else (.retry, run)

mutual

/-- Runs the steps of a listener. -/
def hear (fuel : Nat) (steps : List (Step ω)) : Play ω Unit :=
  match fuel, steps with
  | fuel + 1, step :: rest => do
    let result ← play fuel step
    modify fun p => { p with heard := p.heard.push result }
    hear fuel rest
  | _, _ => return ()

/-- Lets a call go on, past every event that it stands at, to its end. -/
def settle (fuel : Nat) (owner : OwnerId) (response : ScriptResponse ω) :
    Play ω (ScriptResponse ω) :=
  match fuel, response with
  | fuel + 1, .standing e => do
    hear fuel (← takeListener e)
    settle fuel owner (← act (.act owner .resume))
  | _, response => return response

def play (fuel : Nat) (step : Step ω) : Play ω (Result ω) :=
  match fuel, step with
  | 0, _ => return .refused .outOfTurn
  | fuel + 1, .create => do
    match ← act .announce with
    | .standing (.contextMade owner) =>
      hear fuel (← takeListener (.contextMade owner))
      match ← act (.register owner) with
      | .replied _ =>
        modify fun p => { p with roster := p.roster.push owner }
        return .owner owner
      | response => return .ofResponse response
    | response => return .ofResponse response
  | _, .drop context => do
    match (← get).roster[context]? with
    | none => return .silent
    | some owner =>
      match ← act (.drop owner) with
      | .replied _ | .refused .noContext => return .silent
      | response => return .ofResponse response
  | fuel + 1, .call context handle request => do
    match ← ownerOf context with
    | .error why => return .refused why
    | .ok owner =>
      match ← checkHandle handle with
      | .error f => return .fault f
      | .ok () => return .ofResponse (← settle fuel owner (← act (.act owner (.call request))))
  | fuel + 1, .update context handle l kind change wantsOld => do
    match ← play fuel (.call context handle (.read l kind)) with
    | .replied (.value v) =>
      match ← play fuel (.call context none (.write l (change v))) with
      | .replied .done => return .replied (if wantsOld then .value v else .done)
      | result => return result
    | result => return result
  | fuel + 1, .block form context id mode body answers => do
    match ← ownerOf context with
    | .error why => return .block form [] [] (.refused why)
    | .ok owner =>
      let run := { form, context, owner, body, answers }
      converse fuel run (← settle fuel owner (← act (.act owner (.enter id mode))))
  | _, .listen message steps => do
    modify fun p => { p with listeners := p.listeners ++ [(message, steps)] }
    return .silent
  | _, .raise _ | _, .fail _ => return .silent
  | _, .breakDown text => return .fault (.raised text)
  | _, .look view => do
    match view (← get).system with
    | .error f => return .fault f
    | .ok w => return .shown w
  | _, .inspect context view => do
    let p ← get
    match p.roster[context]? with
    | none => return .refused .noContext
    | some owner =>
      match p.system.context owner with
      | .error why => return .refused why
      | .ok c => return .shown (view p.system.runtime c)
  | _, .poke change => do
    let p ← get
    let (result, runtime) := change p.system.runtime
    set { p with system := { p.system with runtime } }
    match result with
    | .error f => return .fault f
    | .ok w => return .shown w

/-- Goes on with a block after a response, to the block's end. -/
def converse (fuel : Nat) (run : BlockRun ω) (response : ScriptResponse ω) : Play ω (Result ω) :=
  match fuel, response with
  | fuel + 1, .attempt => do
    let body ← attempt fuel run.context (run.attempts.length + 1) run.body [] []
    let run := { run with attempts := run.attempts ++ [body.results] }
    match body.ending with
    | .error f =>
      let _ ← act (.act run.owner .unwind)
      return run.report (.fault f)
    | .ok result =>
      converse fuel run (← settle fuel run.owner (← act (.act run.owner (.leave result))))
  | fuel + 1, .question c => do
    let (answer, run) := nextAnswer run c
    converse fuel run (← settle fuel run.owner (← act (.act run.owner (.decide answer))))
  | _, .ended result => return run.report (.result result)
  | _, .faulted f => return run.report (.fault f)
  | _, .refused why => return run.report (.refused why)
  | _, _ => return run.report (.refused .outOfTurn)

/-- Runs the body of a block in one attempt, the results so far and those to keep in reverse. -/
def attempt (fuel own number : Nat) (lines : List (Line (Step ω)))
    (results kept : List (Result ω)) : Play ω (BodyEnd ω) :=
  match fuel, lines with
  | fuel + 1, line :: rest =>
    if line.attempts.any (number ∉ ·) then attempt fuel own number rest results kept
    else match line.step with
      | .raise c => return ⟨(Result.silent :: results).reverse, .ok (.conflict c)⟩
      | .fail text => return ⟨(Result.silent :: results).reverse, .ok (.failure text)⟩
      | step => do
        let result ← play fuel step
        match result.fault?, result.conflict? with
        | some f, _ => return ⟨results.reverse, .error f⟩
        | none, some c =>
          let results := result :: results
          if step.isAccessOf own && !line.catches then
            return ⟨results.reverse, .ok (.conflict c)⟩
          else attempt fuel own number rest results (if step.isKept then result :: kept else kept)
        | none, none =>
          attempt fuel own number rest (result :: results)
            (if step.isKept then result :: kept else kept)
  | _, _ => return ⟨results.reverse, .ok (.value kept.reverse)⟩

end

/-- How deep a script may go, in steps that wait for one another. -/
def depth : Nat := 1000000

/-- Makes a number of contexts, which get the next numbers; the first fault ends it. -/
def createContexts : Nat → Play ω (Except Fault Unit)
  | 0 => return .ok ()
  | n + 1 => do
    match (← play depth .create).fault? with
    | some f => return .error f
    | none => createContexts n

/-- Runs one step of a script: its result, the events during the step, and the results of the
    listeners' steps. -/
def perform (p : Player ω) (step : Step ω) : (Result ω × Array Event × Array (Result ω)) × Player ω :=
  let (result, p) := (play depth step).run { p with events := #[], heard := #[] }
  ((result, p.events, p.heard), p)

end Player

end TransactionalMemory
