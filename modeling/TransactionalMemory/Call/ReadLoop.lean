import TransactionalMemory.Call.Basic

/-! # The read loop

A field under a slot that the attempt does not hold is read in a loop.  A pass of the loop looks at the
slot, which has to be free, loads the value and looks at the slot again.  If the stamp is beyond the bound
of the snapshot the bound has to move, and then the pass looks at the slot once more.  A look that finds
the slot other than it was at the first one starts the loop over.

Others can act between any two steps of the loop (`Scope.readStep`).  `Scope.readFrom` is the loop while
nobody does: it runs up to the answer, to a fault or to an event.  The extension of a regular attempt
stands at an event, so its pass is in two segments; an elastic attempt that has not written moves its
bound at once, if its most recent reads are current.
-/

namespace TransactionalMemory

/-- Where a read loop stands, with the stamp that its pass has seen and the value that it has loaded. -/
inductive ReadStage where
  | look
  | load (stamp : Nat)
  /-- The slot is to be looked at again before the value can be used. -/
  | confirm (stamp : Nat) (value : Value)
  /-- The bound of the snapshot has to move. -/
  | move (stamp : Nat) (value : Value)
  /-- The bound has moved, and the slot is to be looked at once more. -/
  | settle (stamp : Nat) (value : Value)
  deriving DecidableEq, Repr

namespace ReadStage

/-- Whether the slot is as the pass has seen it. -/
def isCurrent (w : LockWord) : ReadStage → Bool
  | look => true
  | load stamp | confirm stamp _ | move stamp _ | settle stamp _ => w = .free stamp

/-- How many steps are left at most while the slot stays as it is. -/
def left (w : LockWord) (stage : ReadStage) : Nat :=
  let ofPass := match stage with
    | look => 5
    | load _ => 4
    | confirm .. => 3
    | move .. => 2
    | settle .. => 1
  if stage.isCurrent w then ofPass else ofPass + 5

end ReadStage

/-- How far a call came, if others can act inside of its read loop. -/
inductive Course where
  | stopped (p : Progress)
  | reading (l : Location) (kind : Kind) (slot : Nat) (stage : ReadStage)
  deriving DecidableEq, Repr

namespace Scope

/-- The end of a segment, as a course. -/
def stop (p : Progress × Scope) : Course × Scope := (.stopped p.1, p.2)

/-- Stands at the event of an extension, or learns that a logged read is not current. -/
def tryExtend (s : Scope) (next : AfterExtension) (failed : Scope → Progress × Scope) :
    Progress × Scope :=
  let c := s.context
  let candidate := s.runtime.clock.now
  match c.reads.validate s.runtime.table c.owner c.writes with
  | .error f => (.faulted f, s)
  | .ok true => (.standing (.extended c.owner c.upper candidate) (.extend candidate next), s)
  | .ok false => failed s

/-- Logs a read and answers with its value.  By now the bound has reached the stamp. -/
def finishRead (s : Scope) (l : Location) (slot stamp : Nat) (v : Value) : Progress × Scope :=
  if stamp ≤ s.context.upper then
    (.answered (.value v), { s with context := s.context.logRead ⟨l, slot, stamp⟩ })
  else (.faulted .boundBelowStamp, s)

/-! ## One step -/

/-- A pass begins: the slot has to be free. -/
def lookAt (s : Scope) (l : Location) (kind : Kind) (slot : Nat) : Course × Scope :=
  match s.runtime.table.check slot s.context.owner with
  | .error f => (.stopped (.faulted f), s)
  | .ok (.error contention) => stop (s.abort contention.conflict .access)
  | .ok (.ok (.held _)) => (.stopped (.faulted (.readWithoutLock slot)), s)
  | .ok (.ok (.free stamp)) => (.reading l kind slot (.load stamp), s)

/-- Looks again: the pass can go on as `unchanged` says, or the loop starts over. -/
def lookAgain (s : Scope) (l : Location) (kind : Kind) (slot stamp : Nat)
    (unchanged : Course × Scope) : Course × Scope :=
  match s.runtime.table.load slot with
  | .error f => (.stopped (.faulted f), s)
  | .ok w => if w = .free stamp then unchanged else (.reading l kind slot .look, s)

/-- Moves the bound to the clock.  An elastic attempt that has not written only needs its most recent
    reads to be current; nobody acts between this check and the move. -/
def moveBound (s : Scope) (l : Location) (kind : Kind) (slot stamp : Nat) (v : Value) :
    Course × Scope :=
  let c := s.context
  if c.isFast then
    match c.window.validate s.runtime.table c.owner c.writes with
    | .error f => (.stopped (.faulted f), s)
    | .ok false => stop (s.abort .betweenSuccessiveReads .access)
    | .ok true =>
      (.reading l kind slot (.settle stamp v),
        { s with context := { c with upper := s.runtime.clock.now } })
  else stop (s.tryExtend (.recheck l kind slot stamp v) fun s => s.abort .extendFailed .access)

def readStep (s : Scope) (l : Location) (kind : Kind) (slot : Nat) : ReadStage → Course × Scope
  | .look => s.lookAt l kind slot
  | .load stamp =>
    match s.runtime.memory.peek l kind with
    | .error f => (.stopped (.faulted f), s)
    | .ok v => (.reading l kind slot (.confirm stamp v), s)
  | .confirm stamp v =>
    s.lookAgain l kind slot stamp <|
      if stamp ≤ s.context.upper then stop (s.finishRead l slot stamp v)
      else (.reading l kind slot (.move stamp v), s)
  | .move stamp v => s.moveBound l kind slot stamp v
  | .settle stamp v => s.lookAgain l kind slot stamp (stop (s.finishRead l slot stamp v))

/-! ## The loop -/

variable {s s' : Scope} {l l' : Location} {kind kind' : Kind} {slot slot' stamp : Nat}
  {stage stage' : ReadStage}

theorem stop_ne_reading {p : Progress × Scope} : stop p ≠ (.reading l kind slot stage, s) :=
  fun same => Course.noConfusion (congrArg Prod.fst same)

theorem lookAt_reading (step : s.lookAt l kind slot = (.reading l' kind' slot' stage', s')) :
    slot' = slot ∧ s'.runtime = s.runtime ∧
      ∃ stamp, stage' = .load stamp ∧ s.runtime.table.word slot = .free stamp := by
  unfold lookAt LockTable.check LockTable.load at step
  split at step
  · cases step
  · exact absurd step stop_ne_reading
  · cases step
  · next stamp free =>
    cases step
    refine ⟨rfl, rfl, stamp, rfl, ?_⟩
    by_cases inside : slot < s.runtime.table.size
    · cases word : s.runtime.table.word slot with
      | free stamp' =>
        simp only [inside, word, ↓reduceIte, bind, Except.bind, pure, Except.pure, Except.ok.injEq] at free
        exact free
      | held holder =>
        simp only [inside, word, ↓reduceIte, bind, Except.bind, pure, Except.pure] at free
        split at free <;> cases free
    · simp [inside, bind, Except.bind] at free

theorem lookAgain_reading {unchanged : Course × Scope}
    (step : s.lookAgain l kind slot stamp unchanged = (.reading l' kind' slot' stage', s')) :
    (s.runtime.table.word slot = .free stamp ∧ unchanged = (.reading l' kind' slot' stage', s')) ∨
      s.runtime.table.word slot ≠ .free stamp ∧ stage' = .look := by
  unfold lookAgain LockTable.load at step
  split at step
  · cases step
  · next w loaded =>
    split at loaded
    · cases loaded
      split at step
      · next same => exact Or.inl ⟨same, step⟩
      · next differs =>
        cases step
        exact Or.inr ⟨differs, rfl⟩
    · cases loaded

/-- The loop ends: while the table stays as it is, every step comes closer to the end. -/
theorem left_lt (step : s.readStep l kind slot stage = (.reading l' kind' slot' stage', s')) :
    stage'.left (s'.runtime.table.word slot') < stage.left (s.runtime.table.word slot) := by
  cases stage with
  | look =>
    obtain ⟨rfl, same, stamp, rfl, free⟩ := lookAt_reading step
    simp [ReadStage.left, ReadStage.isCurrent, same, free]
  | load stamp =>
    simp only [readStep] at step
    split at step
    · cases step
    · cases step
      by_cases free : s.runtime.table.word slot = .free stamp <;>
        simp [ReadStage.left, ReadStage.isCurrent, free]
  | confirm stamp v =>
    rcases lookAgain_reading step with ⟨free, goesOn⟩ | ⟨changed, rfl⟩
    · split at goesOn
      · exact absurd goesOn stop_ne_reading
      · cases goesOn
        simp [ReadStage.left, ReadStage.isCurrent, free]
    · simp [ReadStage.left, ReadStage.isCurrent, changed]
  | move stamp v =>
    simp only [readStep, moveBound] at step
    split at step
    · split at step
      · cases step
      · exact absurd step stop_ne_reading
      · cases step
        by_cases free : s.runtime.table.word slot = .free stamp <;>
          simp [ReadStage.left, ReadStage.isCurrent, free]
    · exact absurd step stop_ne_reading
  | settle stamp v =>
    rcases lookAgain_reading step with ⟨free, goesOn⟩ | ⟨changed, rfl⟩
    · exact absurd goesOn stop_ne_reading
    · simp [ReadStage.left, ReadStage.isCurrent, changed]

/-- Goes on with the loop while nobody else acts, up to an answer, to a fault or to an event. -/
def readFrom (s : Scope) (l : Location) (kind : Kind) (slot : Nat) (stage : ReadStage) : Progress × Scope :=
  match _ : s.readStep l kind slot stage with
  | (.stopped p, s') => (p, s')
  | (.reading l' kind' slot' stage', s') => s'.readFrom l' kind' slot' stage'
termination_by stage.left (s.runtime.table.word slot)
decreasing_by exact left_lt ‹_›

/-- Goes on with a call while nobody else acts. -/
def conclude : Course × Scope → Progress × Scope
  | (.stopped p, s) => (p, s)
  | (.reading l kind slot stage, s) => s.readFrom l kind slot stage

theorem readFrom_eq (s : Scope) (l : Location) (kind : Kind) (slot : Nat) (stage : ReadStage) :
    s.readFrom l kind slot stage = conclude (s.readStep l kind slot stage) := by
  rw [readFrom]
  split <;> next step => rw [step]; rfl

/-- Reads a field under a slot that the attempt does not hold. -/
def loadFree (s : Scope) (l : Location) (kind : Kind) (slot : Nat) : Progress × Scope :=
  s.readFrom l kind slot .look

end Scope

end TransactionalMemory
