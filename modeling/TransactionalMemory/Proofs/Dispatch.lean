import TransactionalMemory.Worker

/-! # What a step of a worker runs

An action whose turn it is runs one function of the worker, and any other action is refused
(`Worker.dispatch_step`).  Proofs about a step go by cases on this, so the conditions on the turn are taken
apart only here.

What the function makes of the call on the context, for the blocks of the worker and for its client, touches
neither the runtime nor the context any more, so a step ends where that call ends (`Worker.landing`).
-/

namespace TransactionalMemory

namespace Worker

variable {α ε : Type} {w : Worker} {r : Runtime}

/-! ## Whose turn it is -/

theorem free_of_not_isBusy (idle : w.isBusy = false) : w.pending = none := by
  simp only [isBusy, Bool.or_eq_false_iff, Option.isSome_eq_false_iff, Option.isNone_iff_eq_none] at idle
  exact idle.1

theorem free_of_inBody (inside : w.inBody = true) : w.pending = none := by
  simp only [inBody, Bool.and_eq_true, Bool.not_eq_true'] at inside
  exact free_of_not_isBusy inside.1

theorem free_of_atClient (inside : w.atClient = true) : w.pending = none := by
  simp only [atClient, Bool.and_eq_true, Option.isNone_iff_eq_none] at inside
  exact inside.1

theorem atClient_of_inBody (inside : w.inBody = true) : w.atClient = true := by
  have free := free_of_inBody inside
  simp only [inBody, Bool.and_eq_true] at inside
  rw [atClient, free, inside.2]
  rfl

/-- What a step runs, with what has to hold of the worker for that. -/
inductive Dispatch (w : Worker) (r : Runtime) : WorkerAction α ε → Response α ε × Runtime × Worker → Prop
  | refuse (action : WorkerAction α ε) (why : Refusal) : Dispatch w r action (w.refuse why r)
  | call (idle : w.isBusy = false) (request : Request) :
      Dispatch w r (.call request) (w.advance false ((w.scope r).perform request))
  | resume (rest : Pending) (waiting : w.pending = some rest) : Dispatch w r .resume (w.resume rest r)
  | enter (idle : w.isBusy = false) (block : Nat) (mode : Mode) :
      Dispatch w r (.enter block mode) (w.enter block mode r)
  | leave (inside : w.inBody = true) (result : BodyResult α ε) :
      Dispatch w r (.leave result) (w.leave result r)
  | decide (free : w.pending = none) (b : Block) (c : Conflict) (asking : w.asking? = some (b, c))
      (control : Control) : Dispatch w r (.decide control) (w.decide b c control r)
  | unwind (inside : w.atClient = true) : Dispatch w r .unwind (w.unwind r)

theorem dispatch_step (w : Worker) (r : Runtime) (action : WorkerAction α ε) :
    Dispatch w r action (w.step r action) := by
  cases action with
  | call request =>
    simp only [step]
    split
    · exact .refuse _ _
    · next idle => exact .call (Bool.eq_false_iff.mpr idle) request
  | resume =>
    simp only [step]
    split
    · next rest waiting => exact .resume rest waiting
    · exact .refuse _ _
  | enter block mode =>
    simp only [step]
    split
    · exact .refuse _ _
    · next idle => exact .enter (Bool.eq_false_iff.mpr idle) block mode
  | leave result =>
    simp only [step]
    split
    · next inside => exact .leave inside result
    · exact .refuse _ _
  | decide control =>
    simp only [step]
    split
    · next b c free asking => exact .decide free b c asking control
    · exact .refuse _ _
  | unwind =>
    simp only [step]
    split
    · next inside => exact .unwind inside
    · exact .refuse _ _

/-- Between calls the context takes any request. -/
theorem step_call_of_idle (idle : w.isBusy = false) (request : Request) :
    w.step (α := α) (ε := ε) r (.call request) = w.advance false ((w.scope r).perform request) := by
  rw [step, idle]
  rfl

theorem step_resume_of_waiting {rest : Pending} (waiting : w.pending = some rest) :
    w.step (α := α) (ε := ε) r .resume = w.resume rest r := by
  rw [step, waiting]

/-! ## Where a step ends -/

/-- The context of the worker after a step, on the runtime after it. -/
def landing (out : Response α ε × Runtime × Worker) : Scope := out.2.2.scope out.2.1

@[simp] theorem landing_close (w : Worker) (response : Response α ε) (s : Scope) :
    landing (w.close response s) = s := rfl

@[simp] theorem landing_afterConflict (w : Worker) (c : Conflict) (s : Scope) :
    landing (w.afterConflict (α := α) (ε := ε) c s) = s := by
  unfold afterConflict
  split
  · rfl
  · split <;> rfl

@[simp] theorem landing_advance (w : Worker) (ofBlock : Bool) (p : Progress × Scope) :
    landing (w.advance (α := α) (ε := ε) ofBlock p) = p.2 := by
  obtain ⟨a, s⟩ := p
  cases a with
  | answered a => rfl
  | faulted f => cases ofBlock <;> rfl
  | standing e rest => rfl
  | commitLost => exact landing_afterConflict w _ s

@[simp] theorem landing_resume (w : Worker) (rest : Pending) (r : Runtime) :
    landing (w.resume (α := α) (ε := ε) rest r) = ((w.scope r).resume rest).2 := by
  unfold resume
  split
  · next resumed => rw [landing_close, resumed]
  · exact landing_advance ..

@[simp] theorem landing_leaveBy (w : Worker) (result : BlockResult α ε) (r : Runtime) :
    landing (w.leaveBy result r) = ((w.scope r).commit .block).2 := by
  unfold leaveBy
  split
  · next committed => rw [landing_close, committed]
  · next committed => rw [landing_afterConflict, committed]
  · exact landing_advance ..

@[simp] theorem landing_enter (w : Worker) (block : Nat) (mode : Mode) (r : Runtime) :
    landing (w.enter (α := α) (ε := ε) block mode r) = ((w.scope r).start block mode).2 := by
  unfold enter
  split <;> next started => rw [started]; rfl

@[simp] theorem landing_retry (w : Worker) (b : Block) (c : Conflict) (r : Runtime) :
    landing (w.decide (α := α) (ε := ε) b c .retry r) = ((w.scope r).start b.id b.mode).2 := by
  simp only [decide, scope]
  split <;> next started => rw [started]; rfl

@[simp] theorem landing_unwind (w : Worker) (r : Runtime) :
    landing (w.unwind (α := α) (ε := ε) r) = (w.scope r).rollback.2 := by
  unfold unwind
  split <;> next rolled => rw [rolled]; rfl

end Worker

end TransactionalMemory
