import TransactionalMemory.Proofs.Failures
import TransactionalMemory.Proofs.Outcomes

/-! # All that a step of a worker can do

A step of a worker does one of seven things to its attempt and to what it shares with others, and it does
it whatever faults it meets (`Worker.deed_step`): it leaves all as it is, logs a write under a slot that
it holds or under one that it takes, gives the attempt up, begins another one, commits, or stops in the
middle of a commit.  `WorkerAction.note` says how the client learns of it.

Only the last two store anything, and only to fields under slots that the context holds.
-/

namespace TransactionalMemory

/-! ## What the client learns -/

variable {α ε : Type}

/-- What a response tells of an attempt, apart from its reads. -/
inductive Note where
  | nothing
  | began
  | wrote (l : Location) (v : Value)
  deriving DecidableEq, Repr

def WorkerAction.note : WorkerAction α ε → Response α ε → Note
  | .call (.start ..), .replied .done | _, .attempt => .began
  | .call (.write l v), .replied .done => .wrote l v
  | _, _ => .nothing

/-- The calls whose answers begin or write. -/
def WorkerAction.isNoted : WorkerAction α ε → Bool
  | .call (.start ..) | .call (.write ..) => true
  | _ => false

section

variable {action : WorkerAction α ε} {response : Response α ε}

theorem WorkerAction.note_refused (action : WorkerAction α ε) (why : Refusal) :
    action.note (.refused why) = .nothing := by
  cases action with
  | call request => cases request <;> rfl
  | _ => rfl

theorem WorkerAction.note_of_plain (plain : action.isNoted = false) (other : response ≠ .attempt) :
    action.note response = .nothing := by
  unfold note
  split
  · cases plain
  · exact absurd rfl other
  · cases plain
  · rfl

/-- What the record of an attempt makes of a note. -/
def Note.Adds (d d' : Attempt) : Note → Prop
  | nothing => d'.number = d.number ∧
      ∃ reads, d'.accesses = d.accesses ++ reads ∧ ∀ a ∈ reads, a.isRead = true
  | began => d' = { number := d.number + 1 }
  | wrote l v => d'.number = d.number ∧ d'.accesses = d.accesses ++ [.write l v]

theorem Seat.adds_attemptAfter (d : Seat) (action : WorkerAction α ε) (response : Response α ε) :
    (action.note response).Adds d.attempt (d.attemptAfter action response) := by
  unfold WorkerAction.note
  split
  · simp [Note.Adds, attemptAfter, begins]
  · have begun : begins action (.attempt : Response α ε) = true := by
      cases action with
      | call request => cases request <;> rfl
      | _ => rfl
    simp [Note.Adds, attemptAfter, begun]
  · simp [Note.Adds, attemptAfter, begins, access?]
  · next noAttempt noStart noWrite =>
    have plain : begins action response = false := by
      unfold begins
      split
      · exact (noStart _ _ rfl rfl).elim
      · exact (noAttempt rfl).elim
      · rfl
    refine ⟨by simp [attemptAfter, plain], (d.access? action response).toList,
      by simp [attemptAfter, plain], fun a member => ?_⟩
    have some := Option.mem_toList.mp member
    unfold access? at some
    split at some
    · cases some
      rfl
    · cases some
      rfl
    · exact (noWrite _ _ rfl rfl).elim
    · split at some <;> cases some
      all_goals rfl
    · cases some

end

namespace Worker

variable {w : Worker} {r : Runtime} {p : Progress × Scope}

/-- All that a step of a worker can do. -/
inductive Deed (w : Worker) (r : Runtime) (action : WorkerAction α ε)
    (out : Response α ε × Runtime × Worker) : Prop where
  | keep (same : Scope.Same (w.scope r) (landing out)) (note : action.note out.1 = .nothing)
  | log (l : Location) (v : Value) (logged : Scope.Logged (w.scope r) l v (landing out))
      (note : action.note out.1 = .wrote l v)
  /-- A write whose slot is taken may not be completed, and then its attempt is to be aborted. -/
  | take (l : Location) (v : Value) (stamp : Nat)
      (taken : Scope.Segment.Taken (w.scope r) l v stamp (landing out))
      (note : action.note out.1 = .wrote l v ∨ action.note out.1 = .nothing ∧
        ((∃ f, out.1 = .faulted f) ∨ ∃ c, out.2.2.pending = some (.abort c .access)))
  | giveUp (withdrawn : Scope.Withdrawn (w.scope r) (landing out)) (active : w.context.phase = .active)
      (aborted : out.2.2.context.phase = .aborted) (note : action.note out.1 = .nothing)
  | begin (withdrawn : Scope.Withdrawn (w.scope r) (landing out))
      (active : out.2.2.context.phase = .active) (note : action.note out.1 = .began)
  | commit (committed : Scope.Committed (w.scope r) (landing out)) (note : action.note out.1 = .nothing)
  | stop (f : Fault) (stopped : Scope.Stopped (w.scope r) f (landing out)) (told : out.1 = .faulted f)
      (note : action.note out.1 = .nothing)

/-! ## What the worker makes of a segment -/

theorem note_advance {request : Request}
    (plain : (WorkerAction.call (α := α) (ε := ε) request).isNoted = false) (w : Worker)
    (p : Progress × Scope) :
    WorkerAction.note (α := α) (ε := ε) (.call request) (w.advance false p).1 = .nothing :=
  WorkerAction.note_of_plain plain (attempt_ne_advance w false p)

theorem note_write_advance {l : Location} {v : Value} (w : Worker) (undone : p.1 ≠ .answered .done) :
    WorkerAction.note (α := α) (ε := ε) (.call (.write l v)) (w.advance false p).1 = .nothing := by
  obtain ⟨a, s⟩ := p
  cases a with
  | answered a => cases a <;> first | rfl | exact absurd rfl undone
  | faulted f => rfl
  | standing e rest => rfl
  | commitLost =>
    rw [advance, afterConflict]
    split
    · rfl
    · split <;> rfl

section

variable {result : BlockResult α ε} {s : Scope}

theorem leaveBy_of_verdict (committed : (w.scope r).commit .block = (.answered (.verdict true), s)) :
    w.leaveBy result r = w.close (.ended result) s := by
  unfold leaveBy
  rw [committed]

theorem leaveBy_of_fault {f : Fault} (faulted : (w.scope r).commit .block = (.faulted f, s)) :
    w.leaveBy result r = w.close (.faulted f) s := by
  unfold leaveBy
  rw [faulted]
  rfl

theorem leaveBy_of_standing {e : Event} {rest : Pending}
    (standing : (w.scope r).commit .block = (.standing e rest, s)) :
    w.leaveBy result r = w.stand e rest s := by
  unfold leaveBy
  rw [standing]
  rfl

end

/-- A block that is left with a result ends, because its attempt has committed, or its commit meets a fault
    or stands at the event of its failure, or the attempt was aborted before. -/
theorem leaveBy_cases (h : (w.scope r).Holding) (result : BlockResult α ε) :
    (∃ f, (w.leaveBy result r).1 = .faulted f) ∨
    (∃ s, s.context.phase = .committed ∧ (w.scope r).commit .block = (.answered (.verdict true), s) ∧
      w.leaveBy result r = w.close (.ended result) s) ∨
    (∃ e s, w.context.phase = .active ∧ s.context.phase = .active ∧
      w.leaveBy result r = w.stand e (.failCommit .block) s) ∨
    w.context.phase = .aborted ∧ w.leaveBy result r = w.afterConflict .invalidCommit (w.scope r) := by
  by_cases active : w.context.phase = .active
  · have commits := h.commits active .block
    obtain ⟨a, s, split⟩ : ∃ a s, (w.scope r).commit .block = (a, s) := ⟨_, _, rfl⟩
    rw [split] at commits
    cases commits with
    | same same told =>
      rcases told with ⟨f, told⟩ | ⟨e, told⟩
      · cases told
        exact Or.inl ⟨f, by rw [leaveBy_of_fault split]; rfl⟩
      · cases told
        exact Or.inr (Or.inr (Or.inl ⟨e, s, active, same.phase.trans active, leaveBy_of_standing split⟩))
    | committed committed told =>
      rcases told with told | told
      · cases told
        exact Or.inr (Or.inl ⟨s, committed.phase, split, leaveBy_of_verdict split⟩)
      · cases told
        exact Or.inl ⟨_, by rw [leaveBy_of_fault split]; rfl⟩
    | stopped f stopped told =>
      cases told
      exact Or.inl ⟨f, by rw [leaveBy_of_fault split]; rfl⟩
  · cases phase : w.context.phase with
    | active => exact absurd phase active
    | uninitialized =>
      have faults : (w.scope r).commit .block = (.faulted .commitBeforeAttempt, w.scope r) := by
        rw [Scope.commit, show (w.scope r).context.phase = _ from phase]
      exact Or.inl ⟨_, by rw [leaveBy_of_fault faults]; rfl⟩
    | committed =>
      have answers : (w.scope r).commit .block = (.answered (.verdict true), w.scope r) := by
        rw [Scope.commit, show (w.scope r).context.phase = _ from phase]
      exact Or.inr (Or.inl ⟨_, phase, answers, leaveBy_of_verdict answers⟩)
    | aborted =>
      have answers : (w.scope r).commit .block = (.answered (.verdict false), w.scope r) := by
        rw [Scope.commit, show (w.scope r).context.phase = _ from phase]
      refine Or.inr (Or.inr (Or.inr ⟨rfl, ?_⟩))
      rw [leaveBy, answers]

/-- A body that ends on a conflict gives its attempt up, if that was not done before. -/
theorem leaveOnConflict_cases (h : (w.scope r).Holding) (c : Conflict) :
    (∃ f, w.leaveOnConflict (α := α) (ε := ε) c r = w.close (.faulted f) (w.scope r)) ∨
    ∃ s, w.leaveOnConflict (α := α) (ε := ε) c r = w.afterConflict c s ∧
      (w.context.phase = .active ∧ Scope.Withdrawn (w.scope r) s ∧ s.context.phase = .aborted ∨
        w.context.phase ≠ .active ∧ Scope.Same (w.scope r) s) := by
  unfold leaveOnConflict
  dsimp only
  split
  · exact Or.inl ⟨_, rfl⟩
  · next tally counted =>
    refine Or.inr ?_
    by_cases active : w.context.phase = .active
    · obtain ⟨s, rolled, withdrawn, -, aborted⟩ := h.rollback_counted tally (w.scope r).context.lastConflict
      rw [rolled]
      exact ⟨s, rfl, Or.inl ⟨active, withdrawn, aborted active⟩⟩
    · rw [Scope.rollback_of_inactive (by exact active)]
      exact ⟨_, rfl, Or.inr ⟨active, rfl, rfl, Or.inl rfl, rfl, rfl⟩⟩

namespace Deed

variable {action : WorkerAction α ε} {request : Request} {out : Response α ε × Runtime × Worker}

theorem still (landed : landing out = w.scope r) (note : action.note out.1 = .nothing) :
    Deed w r action out :=
  .keep (landed ▸ (Scope.Looks.refl _).same) note

theorem refuse (w : Worker) (r : Runtime) (action : WorkerAction α ε) (why : Refusal) :
    Deed w r action (w.refuse why r) :=
  .still rfl (action.note_refused why)

theorem look (looks : Scope.Looks (w.scope r) p.2)
    (plain : (WorkerAction.call (α := α) (ε := ε) request).isNoted = false) :
    Deed (α := α) (ε := ε) w r (.call request) (w.advance false p) :=
  .keep (by rw [landing_advance]; exact looks.same) (note_advance plain w p)

theorem write {l : Location} {v : Value} (writes : Scope.Writes (w.scope r) l v p) :
    Deed (α := α) (ε := ε) w r (.call (.write l v)) (w.advance false p) := by
  obtain ⟨a, s⟩ := p
  cases writes with
  | none same undone => exact .still (by rw [landing_advance, same]) (note_write_advance w undone)
  | log logged done =>
    cases done
    exact .log l v logged rfl
  | take stamp taken told =>
    rcases told with done | ⟨f, faulted⟩ | ⟨e, c, stands⟩
    · cases done
      exact .take l v stamp taken (Or.inl rfl)
    · cases faulted
      exact .take l v stamp taken (Or.inr ⟨rfl, Or.inl ⟨f, rfl⟩⟩)
    · cases stands
      exact .take l v stamp taken (Or.inr ⟨rfl, Or.inr ⟨c, rfl⟩⟩)

section

variable (h : (w.scope r).Holding)

include h

theorem commits {site : AbortSite} (landed : landing out = ((w.scope r).commit site).2)
    (note : action.note out.1 = .nothing)
    (told : ∀ f, ((w.scope r).commit site).1 = .faulted f → out.1 = .faulted f) : Deed w r action out := by
  by_cases active : w.context.phase = .active
  · cases h.commits active site with
    | same same => exact .keep (landed ▸ same) note
    | committed committed => exact .commit (landed ▸ committed) note
    | stopped f stopped faulted => exact .stop f (landed ▸ stopped) (told f faulted) note
  · rw [Scope.commit_snd_of_inactive active] at landed
    exact .still landed note

theorem rollback {s : Scope} (rolled : (w.scope r).rollback = (.ok (), s)) (landed : landing out = s)
    (note : action.note out.1 = .nothing) : Deed w r action out := by
  by_cases active : w.context.phase = .active
  · obtain ⟨s', rolled', withdrawn, -, -, aborted⟩ := h.rollback
    cases rolled.symm.trans rolled'
    exact .giveUp (landed ▸ withdrawn) active (landed ▸ aborted active :) note
  · rw [Scope.rollback_of_inactive active] at rolled
    cases rolled
    exact .still landed note

theorem call (request : Request) :
    Deed (α := α) (ε := ε) w r (.call request) (w.advance false ((w.scope r).perform request)) := by
  cases request with
  | start block mode =>
    obtain ⟨s, started, withdrawn, active⟩ := h.starts block mode
    rw [Scope.perform, started]
    exact .begin withdrawn active rfl
  | probe l => exact .look (.probe _) rfl
  | load l kind => exact .look (.load _) rfl
  | read l kind => exact .look (.read _) rfl
  | write l v => exact .write (Scope.writes_write _)
  | commit =>
    refine commits h (landing_advance w false _) (note_advance rfl w _) fun f faulted => ?_
    rw [Scope.perform, show (w.scope r).commit .commit = (.faulted f, _) from Prod.ext faulted rfl]
    rfl
  | rollback =>
    obtain ⟨s, rolled, -⟩ := h.rollback
    refine rollback h rolled ?_ (note_advance rfl w _)
    rw [landing_advance, Scope.perform, Scope.silent_snd, rolled]
  | extend =>
    refine .still ?_ (note_advance rfl w _)
    rw [landing_advance, Scope.perform, Scope.extend_snd]
  | publish =>
    obtain ⟨published, same⟩ := Scope.publish_eq (w.scope r)
    refine .keep ?_ (note_advance rfl w _)
    rw [landing_advance, Scope.perform, Scope.silent_snd, same]
    exact ⟨rfl, rfl, Or.inl rfl, rfl, rfl⟩

theorem resume (rest : Pending) : Deed (α := α) (ε := ε) w r .resume (w.resume rest r) := by
  have landed := landing_resume (α := α) (ε := ε) w rest r
  have note : WorkerAction.note .resume (w.resume (α := α) (ε := ε) rest r).1 = .nothing :=
    WorkerAction.note_of_plain rfl (attempt_ne_resume w rest r)
  cases rest with
  | abort c site =>
    rw [Scope.resume] at landed
    by_cases active : w.context.phase = .active
    · rcases h.finishAbort c site with ⟨f, faulted⟩ | ⟨s, ended, withdrawn, -, aborted⟩
      · rw [faulted] at landed
        exact .still landed note
      · rw [ended] at landed
        have phase : (landing (w.resume (α := α) (ε := ε) (.abort c site) r)).context.phase = .aborted := by
          rw [landed]
          exact aborted active
        exact .giveUp (landed ▸ withdrawn) active phase note
    · exact .keep (landed ▸ Scope.same_finishAbort_of_inactive active c site) note
  | failCommit site => exact .still landed note
  | extend candidate next => exact .keep (landed ▸ (Scope.Looks.extended _ candidate next).same) note
  | giveUp reason report =>
    rw [Scope.resume, Scope.silent_snd] at landed
    exact .keep (landed ▸ Scope.same_finishGiveUp _ reason) note

theorem leaveBy (result : BlockResult α ε) (body : BodyResult α ε) :
    Deed w r (.leave body) (w.leaveBy result r) := by
  refine commits h (landing_leaveBy w result r)
    (WorkerAction.note_of_plain rfl (attempt_ne_leaveBy w result r)) fun f faulted => ?_
  rw [leaveBy_of_fault (Prod.ext faulted rfl)]
  rfl

theorem leaveOnConflict (c : Conflict) :
    Deed (α := α) (ε := ε) w r (.leave (.conflict c)) (w.leaveOnConflict c r) := by
  rcases leaveOnConflict_cases (α := α) (ε := ε) h c with ⟨f, faulted⟩ | ⟨s, left, conflict⟩
  · rw [faulted]
    exact .still rfl rfl
  · have note :
        WorkerAction.note (.leave (.conflict c)) (w.afterConflict (α := α) (ε := ε) c s).1 = .nothing :=
      WorkerAction.note_of_plain rfl (afterConflict_ne rfl)
    have landed := landing_afterConflict (α := α) (ε := ε) w c s
    rw [left]
    rcases conflict with ⟨active, withdrawn, aborted⟩ | ⟨-, same⟩
    · exact .giveUp (landed.symm ▸ withdrawn) active ((congrArg (·.context.phase) landed).trans aborted) note
    · exact .keep (landed.symm ▸ same) note

end

end Deed

/-- Every step of a worker is one of these deeds. -/
theorem deed_step (h : (w.scope r).Holding) (action : WorkerAction α ε) :
    Deed w r action (w.step r action) := by
  have dispatch := dispatch_step w r action
  generalize w.step r action = out at dispatch ⊢
  cases dispatch with
  | refuse => exact .refuse w r _ _
  | call _ request => exact .call h request
  | resume => exact .resume h _
  | enter _ block mode =>
    obtain ⟨s, started, withdrawn, active⟩ := h.starts block mode
    unfold enter
    rw [started]
    exact .begin withdrawn active rfl
  | leave _ result =>
    cases result with
    | value a => exact .leaveBy h _ _
    | failure e => exact .leaveBy h _ _
    | conflict c => exact .leaveOnConflict h c
  | decide _ b c _ control =>
    cases control with
    | stop => exact .still rfl rfl
    | retry =>
      obtain ⟨s, started, withdrawn, active⟩ := h.starts b.id b.mode
      simp only [decide, scope] at started ⊢
      rw [started]
      exact .begin withdrawn active rfl
  | unwind =>
    obtain ⟨s, rolled, -⟩ := h.rollback
    unfold unwind
    rw [rolled]
    exact .rollback h rolled rfl rfl

/-! ## What a deed leaves alone -/

namespace Deed

variable {action : WorkerAction α ε} {out : Response α ε × Runtime × Worker}

/-- Only a commit stores anything. -/
theorem memory_cases (deed : Deed w r action out) :
    out.2.1.memory = r.memory ∨ Scope.Committed (w.scope r) (landing out) ∨
      ∃ f, Scope.Stopped (w.scope r) f (landing out) ∧ out.1 = .faulted f := by
  cases deed with
  | keep same => exact Or.inl same.memory
  | log l v logged => exact Or.inl (congrArg Runtime.memory logged.runtime)
  | take l v stamp taken => exact Or.inl taken.quiet.memory
  | giveUp withdrawn => exact Or.inl withdrawn.memory
  | begin withdrawn => exact Or.inl withdrawn.memory
  | commit committed => exact Or.inr (Or.inl committed)
  | stop f stopped told => exact Or.inr (Or.inr ⟨f, stopped, told⟩)

/-- Only fields under slots that the context holds are stored to. -/
theorem words_of_not_held (deed : Deed w r action out) (h : (w.scope r).Holding) {l : Location}
    (other : r.table.word (r.table.slotOf l) ≠ .held w.context.owner) :
    out.2.1.memory.words l = r.memory.words l := by
  have unlogged : ∀ e ∈ w.context.writes.entries, e.location ≠ l := by
    rintro e member rfl
    obtain ⟨stamp, own⟩ :=
      Option.isSome_iff_exists.mp (h.wellFormed.owns_iff_exists.mpr ⟨e, member, rfl⟩)
    exact other (h.held _ stamp own)
  rcases deed.memory_cases with same | committed | ⟨f, stopped, -⟩
  · rw [same]
  · exact (congrFun committed.words l).trans (overlay_other _ unlogged)
  · obtain ⟨stored, upTo, words⟩ := stopped.stored
    exact (congrFun words l).trans (overlay_other _ fun e member => unlogged e (upTo.subset e member))

/-- A context whose attempt has neither committed nor met a fault has stored nothing. -/
theorem memory_of_uncommitted (deed : Deed w r action out)
    (uncommitted : out.2.2.context.phase ≠ .committed ∨ w.context.phase ≠ .active)
    (clean : ∀ f, out.1 ≠ .faulted f) : out.2.1.memory = r.memory := by
  rcases deed.memory_cases with same | committed | ⟨f, -, told⟩
  · exact same
  · rcases uncommitted with unended | inactive
    · exact absurd committed.phase unended
    · exact absurd committed.active inactive
  · exact absurd told (clean f)

end Deed

end Worker

/-! ## Steps of a system -/

namespace System

variable {s : System}

/-- A step of a system does to what all share what one worker does, or the end of a context, or nothing. -/
theorem Orderly.step_cases (h : s.Orderly) (a : Action α ε) :
    (∃ o action w, a = .act o action ∧ s.worker? o = some w ∧
      (s.step a).2.runtime = (w.step s.runtime action).2.1) ∨
    (∃ o w scope, a.owner? = some o ∧ s.worker? o = some w ∧ Scope.Withdrawn (w.scope s.runtime) scope ∧
      (s.step a).2.runtime = scope.runtime) ∨
    (s.step a).2.runtime.memory = s.runtime.memory ∧ (s.step a).2.runtime.table = s.runtime.table ∧
      (s.step a).2.runtime.clock = s.runtime.clock := by
  cases a with
  | announce =>
    refine Or.inr (Or.inr ?_)
    rw [System.step, System.announce, Runtime.allocateOwner]
    cases s.runtime.nextOwner = 0 || decide (lockBit ≤ s.runtime.nextOwner) <;> exact ⟨rfl, rfl, rfl⟩
  | register o =>
    refine Or.inr (Or.inr ?_)
    simp only [System.step, System.register]
    split
    · split <;> exact ⟨rfl, rfl, rfl⟩
    · exact ⟨rfl, rfl, rfl⟩
  | drop o =>
    rcases h.drop_cases (α := α) (ε := ε) o with ⟨-, same⟩ | ⟨-, w, scope, here, withdrawn, -, dropped⟩
    · rw [System.step, same]
      exact Or.inr (Or.inr ⟨rfl, rfl, rfl⟩)
    · exact Or.inr (Or.inl ⟨o, w, scope, rfl, here, withdrawn, congrArg runtime dropped⟩)
  | act o action =>
    cases here : s.worker? o with
    | none =>
      have same : (s.step (.act o action)).2 = s := by simp only [System.step, System.act, here]
      rw [same]
      exact Or.inr (Or.inr ⟨rfl, rfl, rfl⟩)
    | some w => exact Or.inl ⟨o, action, w, rfl, here, congrArg (·.2.runtime) (act_eq here action)⟩

theorem Orderly.bits_step (h : s.Orderly) (a : Action α ε) :
    (s.step a).2.runtime.table.bits = s.runtime.table.bits := by
  rcases h.step_cases a with ⟨o, action, w, -, here, runtime⟩ | ⟨o, w, scope, -, -, withdrawn, runtime⟩ |
    ⟨-, table, -⟩
  · rw [runtime]
    exact (Worker.step_works (h.holding o w here) action).handles.bits
  · rw [runtime]
    exact withdrawn.given.bits
  · rw [table]

theorem Orderly.slotOf_step (h : s.Orderly) (a : Action α ε) :
    (s.step a).2.runtime.table.slotOf = s.runtime.table.slotOf :=
  LockTable.slotOf_congr (h.bits_step a)

/-- A step stores to no field under a slot that somebody else holds. -/
theorem Orderly.words_of_held (h : s.Orderly) {a : Action α ε} {owner : OwnerId}
    (other : a.owner? ≠ some owner) {l : Location}
    (held : s.runtime.table.word (s.runtime.table.slotOf l) = .held owner) :
    (s.step a).2.runtime.memory.words l = s.runtime.memory.words l := by
  rcases h.step_cases a with ⟨o, action, w, rfl, here, runtime⟩ | ⟨o, w, scope, -, -, withdrawn, runtime⟩ |
    ⟨memory, -⟩
  · rw [runtime]
    have holding := h.holding o w here
    refine (Worker.deed_step holding action).words_of_not_held holding ?_
    rw [held, h.owners o w here]
    rintro ⟨⟩
    exact other rfl
  · rw [runtime, withdrawn.memory]
    rfl
  · rw [memory]

end System

/-- What an owner does is a step of its worker, or nothing, as long as its context is not dropped. -/
theorem System.Orderly.own_cases {s : System} (h : s.Orderly) {owner : OwnerId} {w : Worker}
    (here : s.worker? owner = some w) {a : Action α ε} (own : a.owner? = some owner)
    {kind : WorkerAction α ε → Response α ε → Bool} (kept : a.dropsOr owner kind (s.step a).1 = false) :
    (s.step a).2 = s ∨ ∃ action, a = .act owner action ∧ kind action (w.step s.runtime action).1 = false := by
  cases a with
  | announce => cases own
  | register o =>
    cases own
    refine Or.inl ?_
    simp only [System.step, System.register]
    split
    · next member =>
      -- An owner whose context is there is not announced any more.
      rw [(h.expected owner member).2] at here
      cases here
    · rfl
  | drop o =>
    cases own
    rcases h.drop_cases (α := α) (ε := ε) owner with ⟨-, same⟩ | ⟨accepted, -⟩
    · exact Or.inl same
    · simp [Action.dropsOr, System.step, accepted] at kept
  | act o action =>
    cases own
    simp only [Action.dropsOr, System.step, System.act_eq here, decide_true, Bool.true_and] at kept
    exact Or.inr ⟨action, rfl, kept⟩

/-- A worker that is there after a step was there before, or it has made the step, or it is new. -/
theorem System.Orderly.worker_cases {s : System} (h : s.Orderly) {a : Action α ε} {owner : OwnerId} {w : Worker}
    (there : (s.step a).2.worker? owner = some w) :
    s.worker? owner = some w ∨
    (∃ action w₀, a = .act owner action ∧ s.worker? owner = some w₀ ∧ w = (w₀.step s.runtime action).2.2) ∨
    s.worker? owner = none ∧ ∃ window, w = { context := { owner, window } } := by
  by_cases own : a.owner? = some owner
  · cases a with
    | announce => cases own
    | register o =>
      cases own
      simp only [System.step, System.register] at there
      split at there
      · next member =>
        split at there
        · exact Or.inl there
        · next window _ =>
          rw [System.worker?_setWorker, if_pos rfl] at there
          cases there
          exact Or.inr (Or.inr ⟨(h.expected owner member).2, window, rfl⟩)
      · exact Or.inl there
    | drop o =>
      cases own
      rcases h.drop_cases (α := α) (ε := ε) owner with ⟨-, same⟩ | ⟨-, w₀, scope, -, -, -, dropped⟩
      · exact Or.inl (same ▸ there :)
      · rw [System.step, dropped, System.worker?_erase, if_pos rfl] at there
        cases there
    | act o action =>
      cases own
      cases here : s.worker? owner with
      | none =>
        simp only [System.step, System.act, here] at there
        cases there
      | some w₀ =>
        rw [System.step, System.act_eq here, System.worker?_setWorker, if_pos rfl] at there
        cases there
        exact Or.inr (Or.inl ⟨action, w₀, rfl, rfl, rfl⟩)
  · rw [System.worker?_step_of_ne own] at there
    exact Or.inl there

namespace Chronicle

/-! ## Steps of an owner -/

section

variable {t : Chronicle} {owner : OwnerId} {w : Worker}

theorem worker?_step_act (here : t.system.worker? owner = some w) (action : WorkerAction α ε) :
    (t.step (.act owner action)).system.worker? owner = some (w.step t.system.runtime action).2.2 := by
  rw [step_act here]
  exact System.worker?_setWorker.trans (if_pos rfl)

theorem runtime_step_act (here : t.system.worker? owner = some w) (action : WorkerAction α ε) :
    (t.step (.act owner action)).system.runtime = (w.step t.system.runtime action).2.1 := by
  rw [step_act here]
  rfl

theorem response_step_act (here : t.system.worker? owner = some w) (action : WorkerAction α ε) :
    (t.system.step (.act owner action)).1 = (w.step t.system.runtime action).1 := by
  rw [System.step, System.act_eq here]

end

/-! ## Steps that store nothing -/

/-- Each step of the owner among the actions leaves memory as it is. -/
def StoresNothing (t : Chronicle) (owner : OwnerId) (actions : List (Action α ε)) : Prop :=
  ∀ pre a post, actions = pre ++ a :: post → a.owner? = some owner →
    (t.run (pre ++ [a])).system.runtime.memory = (t.run pre).system.runtime.memory

namespace StoresNothing

variable {t : Chronicle} {owner : OwnerId} {actions : List (Action α ε)} {a : Action α ε}

theorem nil : StoresNothing t owner ([] : List (Action α ε)) := fun _ _ _ split =>
  absurd split.symm (List.append_ne_nil_of_right_ne_nil _ nofun)

theorem snoc (h : StoresNothing t owner actions)
    (still : a.owner? = some owner →
      (t.run (actions ++ [a])).system.runtime.memory = (t.run actions).system.runtime.memory) :
    StoresNothing t owner (actions ++ [a]) := by
  intro pre b post split own
  rcases snoc_eq_append_cons split with ⟨rfl, rfl⟩ | ⟨post', split⟩
  · exact still own
  · exact h pre b post' split own

end StoresNothing

/-! ## Order along a run -/

/-- The actions lead through orderly states only. -/
def OrderlyAlong (t : Chronicle) (actions : List (Action α ε)) : Prop :=
  ∀ pre post, actions = pre ++ post → (t.run pre).system.Orderly

namespace OrderlyAlong

variable {t : Chronicle} {actions : List (Action α ε)} {a : Action α ε}

theorem last (h : OrderlyAlong t actions) : (t.run actions).system.Orderly :=
  h actions [] (List.append_nil _).symm

theorem init (h : OrderlyAlong t (actions ++ [a])) : OrderlyAlong t actions := fun pre post split =>
  h pre (post ++ [a]) (by rw [split, List.append_assoc])

end OrderlyAlong

variable {settings : Settings} {r : Runtime}

theorem orderly_of_append (new : Runtime.new? settings = .ok r) (m : Memory) {before after : List (Action α ε)}
    (owners : (before ++ after).countP Action.isAnnounce < lockBit) :
    ((start r m).run before).system.Orderly := by
  rw [List.countP_append] at owners
  exact (orderly_run new m (by omega)).1

theorem orderlyAlong_run (new : Runtime.new? settings = .ok r) (m : Memory) {before after : List (Action α ε)}
    (owners : (before ++ after).countP Action.isAnnounce < lockBit) :
    ((start r m).run before).OrderlyAlong after := by
  intro pre post split
  rw [split, ← List.append_assoc] at owners
  rw [← run_append]
  exact orderly_of_append new m owners

/-- What holds of every new worker, and is kept by its own steps and while others act, holds of every worker after a
    run, for the number of its steps. -/
theorem worker_run (new : Runtime.new? settings = .ok r) (m : Memory) (Kept : Nat → Worker → Prop)
    (first : ∀ n owner window, Kept n { context := { owner, window } })
    (beside : ∀ {n : Nat} {w : Worker}, Kept n w → Kept (n + 1) w)
    (step : ∀ {n : Nat} {w : Worker} {r : Runtime}, (w.scope r).Holding → Kept n w →
      ∀ action : WorkerAction α ε, Kept (n + 1) (w.step r action).2.2)
    {actions : List (Action α ε)} (owners : actions.countP Action.isAnnounce < lockBit) {owner : OwnerId} {w : Worker}
    (there : ((start r m).run actions).system.worker? owner = some w) : Kept actions.length w := by
  induction actions using List.reverseRecOn generalizing w with
  | nil => simp [start, System.worker?] at there
  | append_singleton actions a ih =>
    have orderly := orderly_of_append new m owners
    rw [run_snoc, system_step] at there
    have earlier : actions.countP Action.isAnnounce < lockBit := by
      rw [List.countP_append] at owners
      omega
    rw [List.length_append, List.length_singleton]
    rcases orderly.worker_cases there with here | ⟨action, w₀, -, here, rfl⟩ | ⟨-, window, rfl⟩
    · exact beside (ih earlier here)
    · exact step (orderly.holding owner w₀ here) (ih earlier here) action
    · exact first _ owner window

/-! ## While others act -/

/-- A context stays as it is while others act, and so do the slots that it holds and the fields under
    them. -/
theorem kept_of_others (new : Runtime.new? settings = .ok r) (m : Memory) (before : List (Action α ε))
    {after : List (Action α ε)} (owners : (before ++ after).countP Action.isAnnounce < lockBit)
    {owner : OwnerId} (others : ∀ a ∈ after, a.owner? ≠ some owner) {w : Worker}
    (here : ((start r m).run before).system.worker? owner = some w) :
    let s := ((start r m).run before).system
    let s' := ((start r m).run (before ++ after)).system
    s'.worker? owner = some w ∧ s'.runtime.table.slotOf = s.runtime.table.slotOf ∧
      (∀ slot, s.runtime.table.word slot = .held owner → s'.runtime.table.word slot = .held owner) ∧
      ∀ l, s.runtime.table.word (s.runtime.table.slotOf l) = .held owner →
        s'.runtime.memory.words l = s.runtime.memory.words l := by
  induction after using List.reverseRecOn with
  | nil =>
    rw [List.append_nil]
    exact ⟨here, rfl, fun _ => id, fun _ _ => rfl⟩
  | append_singleton after a ih =>
    rw [← List.append_assoc] at owners ⊢
    have orderly := orderly_of_append new m owners
    have orderly' := (orderly_run new m owners).1
    have other := others a (List.mem_append_right _ (List.mem_singleton_self a))
    obtain ⟨there, slots, held, words⟩ := ih
      (by rw [List.countP_append] at owners; omega) fun b member => others b (List.mem_append_left _ member)
    rw [run_snoc _ (before ++ after)] at orderly' ⊢
    rw [system_step] at orderly' ⊢
    have still := System.worker?_step_of_ne (s := ((start r m).run (before ++ after)).system) other
    refine ⟨still.trans there, (orderly.slotOf_step a).trans slots, ?_, ?_⟩
    · exact fun slot word => orderly.held_of_others orderly' there still (held slot word)
    · intro l word
      refine (orderly.words_of_held other ?_).trans (words l word)
      rw [slots]
      exact held _ word

end Chronicle

end TransactionalMemory
