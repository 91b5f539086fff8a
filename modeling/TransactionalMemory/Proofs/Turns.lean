import TransactionalMemory.Proofs.Segments

/-! # What a step of a worker leaves behind

A step of a worker ends where one segment of a call ends, or where an attempt was begun or given up.  So every
step of a worker works on the slots of its own context (`Worker.step_works`), and a step that ends an attempt
gives them back (`Worker.step_ends`).
-/

namespace TransactionalMemory

variable {α ε : Type}

namespace Worker

variable {w : Worker} {r : Runtime} {ticks : Nat} {p : Progress × Scope}

/-! ## Beginning and ending attempts of blocks -/

section

variable (h : (w.scope r).Holding)

include h

theorem enter_eq (block : Nat) (mode : Mode) : ∃ s, Scope.Withdrawn (w.scope r) s ∧
    w.enter (α := α) (ε := ε) block mode r =
      { w with blocks := { id := block, mode } :: w.blocks }.settle .attempt s := by
  obtain ⟨s, started, withdrawn⟩ := h.start block mode
  unfold enter
  rw [started]
  exact ⟨s, withdrawn, rfl⟩

theorem retry_eq (b : Block) (c : Conflict) : ∃ s, Scope.Withdrawn (w.scope r) s ∧
    w.decide (α := α) (ε := ε) b c .retry r =
      { w with blocks := { b with attempts := b.attempts + 1, question := none } :: w.blocks.tail }.settle
        .attempt s := by
  obtain ⟨s, started, withdrawn⟩ := h.start b.id b.mode
  simp only [decide, scope] at started ⊢
  rw [started]
  exact ⟨s, withdrawn, rfl⟩

theorem unwind_eq : ∃ s, Scope.Withdrawn (w.scope r) s ∧
    w.unwind (α := α) (ε := ε) r = w.close (.replied .done) s := by
  obtain ⟨s, rolled, withdrawn, -⟩ := h.rollback
  unfold unwind
  rw [rolled]
  exact ⟨s, withdrawn, rfl⟩

/-- A body that ends on a conflict gives its attempt up, unless the conflict meets a full counter. -/
theorem leaveOnConflict_eq (c : Conflict) :
    (∃ f, w.leaveOnConflict (α := α) (ε := ε) c r = w.close (.faulted f) (w.scope r)) ∨
    ∃ s, Scope.Withdrawn (w.scope r) s ∧
      w.leaveOnConflict (α := α) (ε := ε) c r = w.afterConflict c s := by
  unfold leaveOnConflict
  dsimp only
  split
  · exact Or.inl ⟨_, rfl⟩
  · next tally counted =>
    obtain ⟨s, rolled, withdrawn, -⟩ := h.rollback_counted tally (w.scope r).context.lastConflict
    rw [rolled]
    exact Or.inr ⟨s, withdrawn, rfl⟩

/-! ## Every step -/

theorem step_works (action : WorkerAction α ε) : Scope.Works (w.scope r) (landing (w.step r action)) := by
  have dispatch := dispatch_step w r action
  generalize w.step r action = out at dispatch ⊢
  cases dispatch with
  | refuse => exact .refl _
  | call _ request =>
    rw [landing_advance]
    exact h.perform request
  | resume rest =>
    rw [landing_resume]
    exact h.resume rest
  | enter _ block mode =>
    obtain ⟨s, withdrawn, entered⟩ := enter_eq (α := α) (ε := ε) h block mode
    rw [entered]
    exact withdrawn.works h
  | leave _ result =>
    cases result with
    | value a =>
      rw [leave, landing_leaveBy]
      exact (Scope.Segment.commit h .block).toWorks
    | failure e =>
      rw [leave, landing_leaveBy]
      exact (Scope.Segment.commit h .block).toWorks
    | conflict c =>
      rcases leaveOnConflict_eq (α := α) (ε := ε) h c with ⟨f, faulted⟩ | ⟨s, withdrawn, left⟩
      · rw [leave, faulted]
        exact .refl _
      · rw [leave, left, landing_afterConflict]
        exact withdrawn.works h
  | decide _ b c _ control =>
    cases control with
    | stop => exact .refl _
    | retry =>
      obtain ⟨s, withdrawn, retried⟩ := retry_eq (α := α) (ε := ε) h b c
      rw [retried]
      exact withdrawn.works h
  | unwind =>
    obtain ⟨s, withdrawn, left⟩ := unwind_eq (α := α) (ε := ε) h
    rw [left]
    exact withdrawn.works h

end

end Worker

/-! ## Calls that may fail -/

/-- The call stands at an event and will go on. -/
def Response.isOpen : Response α ε → Bool
  | standing e => !e.isGaveUp
  | _ => false

/-- The client, or the block, is told that the attempt has failed. -/
def Response.isFailure : Response α ε → Bool
  | replied (.aborted _) | replied (.verdict false) | question _ => true
  | standing e => e.isGaveUp
  | _ => false

/-- An access or a commit. -/
def WorkerAction.tries : WorkerAction α ε → Bool
  | call request => request.isAccess || request = .commit
  | leave (.value _) | leave (.failure _) => true
  | _ => false

def WorkerAction.commits : WorkerAction α ε → Bool
  | call .commit | leave _ => true
  | _ => false

/-- After a conflict a block asks its caller, or it stands before it gives up, or there is no block. -/
def Response.followsConflict : Response α ε → Bool
  | question _ | standing _ | refused _ => true
  | _ => false

namespace Worker

variable {w : Worker} {r : Runtime} {ticks : Nat} {p : Progress × Scope} {c : Conflict}

/-- A step of a call that may fail, and has not failed with this step. -/
structure Tried (w : Worker) (r : Runtime) (ticks : Nat) (out : Response α ε × Runtime × Worker) : Prop where
  standing : out.1.isOpen = true → Scope.Quiet (w.scope r) ticks (landing out) ∧
    ∃ rest, out.2.2.pending = some rest ∧ rest.isGiveUp = false
  steady : w.context.phase = .active → out.1.isFailure = false

theorem afterConflict_ne {s : Scope} {response : Response α ε} (other : response.followsConflict = false) :
    (w.afterConflict c s).1 ≠ response := by
  rintro rfl
  unfold afterConflict at other
  split at other
  · cases other
  · split at other <;> cases other

theorem isOpen_afterConflict (w : Worker) (c : Conflict) (s : Scope) :
    (w.afterConflict (α := α) (ε := ε) c s).1.isOpen = false := by
  unfold afterConflict
  split
  · rfl
  · split <;> rfl

theorem Tried.advance (g : Scope.Segment (w.scope r) ticks p) (ofBlock : Bool) :
    Tried (α := α) (ε := ε) w r ticks (w.advance ofBlock p) := by
  obtain ⟨a, s⟩ := p
  cases a with
  | answered a =>
    refine ⟨Bool.noConfusion, fun active => ?_⟩
    have steady := g.steady active
    cases a with
    | verdict b => cases b <;> first | rfl | exact steady
    | aborted c => exact steady
    | _ => rfl
  | faulted f => cases ofBlock <;> exact ⟨Bool.noConfusion, fun _ => rfl⟩
  | standing e rest =>
    obtain ⟨quiet, event, call⟩ := g.standing e rest rfl
    exact ⟨fun _ => ⟨quiet, rest, rfl, call⟩, fun _ => event⟩
  | commitLost =>
    refine ⟨fun isOpen => ?_, fun active => ?_⟩
    · rw [Worker.advance, isOpen_afterConflict] at isOpen
      cases isOpen
    · cases g.steady active

theorem Tried.leaveBy (h : (w.scope r).Holding) (result : BlockResult α ε) :
    Tried w r 1 (w.leaveBy result r) := by
  have g := Scope.Segment.commit h .block
  unfold Worker.leaveBy
  split
  · exact ⟨Bool.noConfusion, fun _ => rfl⟩
  · next a s failed committed =>
    refine ⟨fun isOpen => ?_, fun active => ?_⟩
    · rw [isOpen_afterConflict] at isOpen
      cases isOpen
    · -- A commit of an active attempt has only success to answer at once.
      have answered : a = .verdict true := Scope.answered_commit active (congrArg Prod.fst committed)
      subst answered
      exact absurd rfl failed
  · exact .advance g true

theorem Tried.refuse (w : Worker) (why : Refusal) (r : Runtime) :
    Tried (α := α) (ε := ε) w r ticks (w.refuse why r) :=
  ⟨Bool.noConfusion, fun _ => rfl⟩

theorem step_tries (h : (w.scope r).Holding) {action : WorkerAction α ε} (tries : action.tries = true) :
    Tried w r action.commits.toNat (w.step r action) := by
  have dispatch := dispatch_step w r action
  generalize w.step r action = out at dispatch ⊢
  cases dispatch with
  | refuse => exact .refuse w _ r
  | call _ request =>
    cases request with
    | probe l => exact .advance (.probe _) false
    | load l kind => exact .advance (.load _) false
    | read l kind => exact .advance (.read _) false
    | write l v => exact .advance (.write _) false
    | commit => exact .advance (.commit h .commit) false
    | _ => cases tries
  | leave _ result =>
    cases result with
    | value a => exact .leaveBy h _
    | failure e => exact .leaveBy h _
    | conflict c => cases tries
  | _ => cases tries

/-- A step that tells the client of an attempt that has failed: the attempt has been given up, and the
    context remembers the conflict. -/
structure Failed (w : Worker) (r : Runtime) (c : Conflict) (out : Response α ε × Runtime × Worker) : Prop where
  withdrawn : Scope.Withdrawn (w.scope r) (landing out)
  phase : out.2.2.context.phase = .aborted
  conflict : out.2.2.context.lastConflict = some c
  told : ∀ c', out.1 = .replied (.aborted c') → c' = c
  waits : ∀ rest, out.2.2.pending = some rest → rest.isGiveUp = true

theorem Failed.afterConflict {s : Scope} {c' : Conflict} (withdrawn : Scope.Withdrawn (w.scope r) s)
    (phase : s.context.phase = .aborted) (conflict : s.context.lastConflict = some c) :
    Failed (α := α) (ε := ε) w r c (w.afterConflict c' s) := by
  unfold Worker.afterConflict
  split
  · exact ⟨withdrawn, phase, conflict, nofun, nofun⟩
  · split
    · exact ⟨withdrawn, phase, conflict, nofun, fun _ waiting => by cases waiting; rfl⟩
    · exact ⟨withdrawn, phase, conflict, nofun, nofun⟩

theorem resume_eq_advance {rest : Pending} (call : rest.isGiveUp = false) :
    w.resume (α := α) (ε := ε) rest r = w.advance rest.isOfBlock ((w.scope r).resume rest) := by
  cases rest with
  | giveUp reason report => cases call
  | _ => rfl

theorem resume_tries (h : (w.scope r).Holding) (active : w.context.phase = .active) {rest : Pending}
    (call : rest.isGiveUp = false) :
    Tried (α := α) (ε := ε) w r 0 (w.resume rest r) ∨
    ∃ c, (w.resume (α := α) (ε := ε) rest r).1.isOpen = false ∧ Failed (α := α) (ε := ε) w r c (w.resume rest r) := by
  rw [resume_eq_advance call]
  cases rest with
  | giveUp reason report => cases call
  | failCommit site => exact Or.inl (.advance (.abort _ _ _) _)
  | extend candidate next => exact Or.inl (.advance (.extended _ candidate next) _)
  | abort c site =>
    rw [show (w.scope r).resume (.abort c site) = (w.scope r).finishAbort c site from rfl]
    rcases h.finishAbort c site with ⟨f, faulted⟩ | ⟨s, ended, withdrawn, conflict, aborted⟩
    · rw [faulted]
      exact Or.inl (.advance (.fault f) _)
    · rw [ended]
      have phase : s.context.phase = .aborted := aborted active
      refine Or.inr ⟨c, ?_⟩
      cases site with
      | access =>
        exact ⟨rfl, withdrawn, phase, conflict, fun _ told => by cases told; rfl, nofun⟩
      | commit => exact ⟨rfl, withdrawn, phase, conflict, nofun, nofun⟩
      | block => exact ⟨isOpen_afterConflict w _ s, .afterConflict withdrawn phase conflict⟩

end Worker

/-! ## Steps that end an attempt -/

def Response.isRefused : Response α ε → Bool
  | refused _ => true
  | _ => false

/-- The attempt is rolled back, by the client or by its block. -/
def WorkerAction.rollsBack : WorkerAction α ε → Response α ε → Bool
  | call .rollback, .replied _ | unwind, .replied _ => true
  | leave (.conflict _), .question _ | leave (.conflict _), .standing _ => true
  | _, _ => false

/-- The attempt is rolled back, or another one begins. -/
def WorkerAction.ends (action : WorkerAction α ε) (response : Response α ε) : Bool :=
  Seat.begins action response || action.rollsBack response

namespace Worker

variable {w : Worker} {r : Runtime}

theorem attempt_ne_advance (w : Worker) (ofBlock : Bool) (p : Progress × Scope) :
    (w.advance (α := α) (ε := ε) ofBlock p).1 ≠ .attempt := by
  obtain ⟨a, s⟩ := p
  cases a with
  | faulted f => cases ofBlock <;> nofun
  | commitLost => exact afterConflict_ne rfl
  | _ => nofun

theorem attempt_ne_resume (w : Worker) (rest : Pending) (r : Runtime) :
    (w.resume (α := α) (ε := ε) rest r).1 ≠ .attempt := by
  unfold resume
  split
  · nofun
  · exact attempt_ne_advance w _ _

theorem attempt_ne_leaveBy (w : Worker) (result : BlockResult α ε) (r : Runtime) :
    (w.leaveBy result r).1 ≠ .attempt := by
  unfold leaveBy
  split
  · nofun
  · exact afterConflict_ne rfl
  · exact attempt_ne_advance w _ _

theorem ends_refused (action : WorkerAction α ε) (why : Refusal) :
    action.ends (.refused why : Response α ε) = false := by
  cases action with
  | call request => cases request <;> rfl
  | leave result => cases result <;> rfl
  | _ => rfl

/-- Only steps that begin an attempt are told as such. -/
theorem rollsBack_of_ends {action : WorkerAction α ε} {response : Response α ε}
    (ends : action.ends response = true) (call : ∀ block mode, action ≠ .call (.start block mode))
    (other : response ≠ .attempt) : action.rollsBack response = true := by
  rw [WorkerAction.ends, Seat.begins_of_plain call other] at ends
  exact ends

theorem step_ends (h : (w.scope r).Holding) {action : WorkerAction α ε}
    (ends : action.ends (w.step r action).1 = true) :
    Scope.Withdrawn (w.scope r) (landing (w.step r action)) := by
  have dispatch := dispatch_step w r action
  generalize w.step r action = out at dispatch ends ⊢
  cases dispatch with
  | refuse _ why => cases (ends_refused action why).symm.trans ends
  | call _ request =>
    cases request with
    | start block mode =>
      obtain ⟨s, started, withdrawn⟩ := h.start block mode
      rw [landing_advance, Scope.perform, Scope.silent_snd, started]
      exact withdrawn
    | rollback =>
      obtain ⟨s, rolled, withdrawn, -⟩ := h.rollback
      rw [landing_advance, Scope.perform, Scope.silent_snd, rolled]
      exact withdrawn
    | _ => cases rollsBack_of_ends ends (by rintro _ _ ⟨⟩) (attempt_ne_advance w _ _)
  | resume => cases rollsBack_of_ends ends (by rintro _ _ ⟨⟩) (attempt_ne_resume w _ _)
  | enter _ block mode =>
    obtain ⟨s, withdrawn, entered⟩ := enter_eq (α := α) (ε := ε) h block mode
    rw [entered]
    exact withdrawn
  | leave _ result =>
    cases result with
    | conflict c =>
      rcases leaveOnConflict_eq (α := α) (ε := ε) h c with ⟨f, faulted⟩ | ⟨s, withdrawn, left⟩
      · rw [leave, faulted] at ends
        cases ends
      · rw [leave, left, landing_afterConflict]
        exact withdrawn
    | value a =>
      cases rollsBack_of_ends ends (by rintro _ _ ⟨⟩) (attempt_ne_leaveBy w (.validated a) r)
    | failure e =>
      cases rollsBack_of_ends ends (by rintro _ _ ⟨⟩) (attempt_ne_leaveBy w (.cancelled e) r)
  | decide _ b c _ control =>
    cases control with
    | stop => cases ends
    | retry =>
      obtain ⟨s, withdrawn, retried⟩ := retry_eq (α := α) (ε := ε) h b c
      rw [retried]
      exact withdrawn
  | unwind =>
    obtain ⟨s, withdrawn, left⟩ := unwind_eq (α := α) (ε := ε) h
    rw [left]
    exact withdrawn

end Worker

end TransactionalMemory
