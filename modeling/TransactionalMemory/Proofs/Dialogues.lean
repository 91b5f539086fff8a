import TransactionalMemory.Proofs.Blocks

/-! # What a block and its caller say to each other

A block runs its body, asks its caller about a conflict, and is told to run the body again or to stop.  A run of the
system has all of that in it; the `Dialogue` of an owner picks it out: how often a body was run, how often the caller
was asked, and what it answered.  While a block is underway, its dialogue is one of three, told by the number of runs
(`Dialogue.during`, `Dialogue.asking`, `Dialogue.stopped`).
-/

namespace TransactionalMemory

variable {α ε : Type}

def Response.isQuestion : Response α ε → Bool
  | question _ => true
  | _ => false

/-- The answer of the caller, if the block has waited for one. -/
def WorkerAction.answer? : WorkerAction α ε → Response α ε → Option Control
  | decide control, response => if response.isRefused then none else some control
  | _, _ => none

/-- How often a body was run, how often the caller was asked about a conflict, and what it has answered. -/
structure Dialogue where
  runs : Nat := 0
  asked : Nat := 0
  answers : List Control := []
  deriving DecidableEq, Repr

namespace Dialogue

/-- The dialogue goes on with an action and the response to it. -/
def next (d : Dialogue) (action : WorkerAction α ε) (response : Response α ε) : Dialogue where
  runs := d.runs + response.isAttempt.toNat
  asked := d.asked + response.isQuestion.toNat
  answers := d.answers ++ (action.answer? response).toList

/-- A body is run, after all conflicts of the runs before it were answered by another run. -/
def during (runs : Nat) : Dialogue := ⟨runs, runs - 1, .replicate (runs - 1) .retry⟩

/-- The caller is asked about the conflict of the last run. -/
def asking (runs : Nat) : Dialogue := ⟨runs, runs, .replicate (runs - 1) .retry⟩

/-- The caller has stopped the block after the last run. -/
def stopped (runs : Nat) : Dialogue := ⟨runs, runs, .replicate (runs - 1) .retry ++ [.stop]⟩

variable {d : Dialogue} {action : WorkerAction α ε} {response : Response α ε} {runs : Nat}

/-- Nothing is said that the dialogue is about. -/
theorem next_of_silent (attempt : response.isAttempt = false) (question : response.isQuestion = false)
    (answer : action.answer? response = none) : d.next action response = d := by
  simp [next, attempt, question, answer]

theorem next_refused (d : Dialogue) (action : WorkerAction α ε) (why : Refusal) :
    d.next action (.refused why : Response α ε) = d :=
  next_of_silent rfl rfl (by cases action <;> rfl)

theorem next_question (begun : 0 < runs) (c : Conflict) (answer : action.answer? (.question c) = none) :
    (during runs).next action (.question c) = asking runs := by
  simp only [next, during, asking, answer, Response.isAttempt, Response.isQuestion, Bool.toNat_false, Bool.toNat_true,
    Option.toList_none, List.append_nil, Nat.add_zero]
  rw [Nat.sub_add_cancel begun]

theorem next_retry (begun : 0 < runs) :
    (asking runs).next (.decide .retry : WorkerAction α ε) .attempt = during (runs + 1) := by
  obtain ⟨n, rfl⟩ := Nat.exists_eq_add_of_lt begun
  simp only [next, during, asking, WorkerAction.answer?, Response.isRefused, Response.isAttempt, Response.isQuestion,
    Bool.false_eq_true, ↓reduceIte, Option.toList_some, Bool.toNat_true, Bool.toNat_false, Nat.add_zero,
    Nat.add_sub_cancel]
  rw [← List.replicate_succ', Nat.zero_add]

end Dialogue

namespace Chronicle

variable {t : Chronicle} {owner : OwnerId}

/-- The dialogue goes on with an action of anyone. -/
def hear (t : Chronicle) (owner : OwnerId) (d : Dialogue) (a : Action α ε) : Dialogue :=
  match a with
  | .act o action => if o = owner then d.next action (t.system.step a).1 else d
  | _ => d

/-- The dialogue of an owner in a run. -/
def dialogue (t : Chronicle) (owner : OwnerId) (d : Dialogue) : List (Action α ε) → Dialogue
  | [] => d
  | a :: rest => (t.step a).dialogue owner (t.hear owner d a) rest

theorem dialogue_snoc (t : Chronicle) (owner : OwnerId) (d : Dialogue) (sofar : List (Action α ε)) (a : Action α ε) :
    t.dialogue owner d (sofar ++ [a]) = (t.run sofar).hear owner (t.dialogue owner d sofar) a := by
  induction sofar generalizing t d with
  | nil => rfl
  | cons b rest ih => exact ih (t.step b) (t.hear owner d b)

theorem hear_act (d : Dialogue) (action : WorkerAction α ε) :
    t.hear owner d (.act owner action) = d.next action (t.system.step (.act owner action)).1 := if_pos rfl

theorem hear_of_ne (d : Dialogue) {a : Action α ε} (other : a.owner? ≠ some owner) : t.hear owner d a = d := by
  cases a with
  | act o action => exact if_neg fun same => other (congrArg some same)
  | _ => rfl

end Chronicle

end TransactionalMemory
