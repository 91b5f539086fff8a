import TransactionalMemory.Proofs.Turns

/-! # Aborted attempts

Once an attempt is aborted, every access repeats the conflict, a commit answers that it failed, and a
rollback does nothing; none of them changes anything (`Worker.Aborted.step_access` and the lemmas after
it).  Whatever else the client does, the context stays in this state until another attempt begins
(`Worker.Aborted.step`).
-/

namespace TransactionalMemory

variable {α ε : Type}

/-- The attempt of the context was aborted for a conflict, and its writes are forgotten. -/
structure Context.AbortedFor (context : Context) (c : Conflict) : Prop where
  phase : context.phase = .aborted
  conflict : context.lastConflict = some c
  writes : context.writes = {}

namespace Scope

variable {s : Scope} {c : Conflict}

/-! ## Calls on an aborted attempt -/

section

variable (aborted : s.context.AbortedFor c)

include aborted

theorem obstacle?_of_aborted : s.obstacle? = some (.answered (.aborted c)) := by
  unfold obstacle?
  rw [aborted.phase, aborted.conflict]

theorem probe_of_aborted (l : Location) : s.probe l = (.answered (.aborted c), s) := by
  unfold probe
  rw [obstacle?_of_aborted aborted]

theorem perform_of_aborted {request : Request} (access : request.isAccess = true) :
    s.perform request = (.answered (.aborted c), s) := by
  have blocked := obstacle?_of_aborted aborted
  cases request with
  | probe l => exact probe_of_aborted aborted l
  | load l kind =>
    unfold perform load
    rw [blocked]
  | read l kind => simp only [perform, read, probe_of_aborted aborted l]
  | write l v =>
    unfold perform write
    rw [blocked]
  | _ => cases access

theorem commit_of_aborted (site : AbortSite) : s.commit site = (.answered (.verdict false), s) := by
  unfold commit
  rw [aborted.phase]

theorem rollback_of_aborted : s.rollback = (.ok (), s) := by
  unfold rollback
  rw [if_neg (by rw [aborted.phase]; exact Phase.noConfusion)]

theorem start_of_aborted (block : Nat) (mode : Mode) : s.start block mode = (.ok (), s.fresh block mode) := by
  unfold start
  rw [if_pos (by rw [aborted.writes]; rfl)]

end

end Scope

namespace Worker

/-- The attempt of the worker was aborted for a conflict, and no call on it can still read, write or
    commit. -/
structure Aborted (w : Worker) (c : Conflict) : Prop extends w.context.AbortedFor c where
  waits : ∀ rest, w.pending = some rest →
    rest.isGiveUp = true ∨ ∃ candidate, rest = .extend candidate .answer

variable {w : Worker} {r : Runtime} {c : Conflict}

theorem Failed.aborted {out : Response α ε × Runtime × Worker} (failed : Failed w r c out) :
    out.2.2.Aborted c where
  phase := failed.phase
  conflict := failed.conflict
  writes := failed.withdrawn.empty
  waits rest waiting := Or.inl (failed.waits rest waiting)

/-- Between calls, an answer alone changes nothing. -/
theorem settle_scope (free : w.isBusy = false) (response : Response α ε) (r : Runtime) :
    w.settle response (w.scope r) = (response, r, w) := by
  obtain ⟨context, pending, blocks⟩ := w
  have none : pending = none := free_of_not_isBusy free
  subst none
  rfl

namespace Aborted

theorem settle {s : Scope} (aborted : s.context.AbortedFor c) (w : Worker) (response : Response α ε) :
    (w.settle response s).2.2.Aborted c := ⟨aborted, nofun⟩

theorem giveUp {s : Scope} (aborted : s.context.AbortedFor c) (w : Worker) (b : Block)
    (reason : GiveUpReason) (c' : Conflict) :
    (w.giveUp (α := α) (ε := ε) b reason c' s).2.2.Aborted c :=
  ⟨aborted, fun _ waiting => by cases waiting; exact Or.inl rfl⟩

theorem afterConflict {s : Scope} (aborted : s.context.AbortedFor c) (w : Worker) (c' : Conflict) :
    (w.afterConflict (α := α) (ε := ε) c' s).2.2.Aborted c := by
  unfold Worker.afterConflict
  split
  · exact .settle aborted w _
  · split
    · exact .giveUp aborted w _ _ _
    · exact .settle aborted _ _

theorem advance {p : Progress × Scope} (aborted : p.2.context.AbortedFor c) (w : Worker)
    (standing : ∀ e rest, p.1 = .standing e rest → ∃ candidate, rest = .extend candidate .answer)
    (ofBlock : Bool) : (w.advance (α := α) (ε := ε) ofBlock p).2.2.Aborted c := by
  obtain ⟨a, s⟩ := p
  cases a with
  | answered a => exact .settle aborted w _
  | faulted f => cases ofBlock <;> exact .settle aborted _ _
  | standing e rest => exact ⟨aborted, fun _ waiting => by cases waiting; exact Or.inr (standing e rest rfl)⟩
  | commitLost => exact .afterConflict aborted w _

/-! ## Every step -/

section

variable (h : w.Aborted c)

include h

theorem call {request : Request} (r : Runtime)
    (still : Seat.begins (α := α) (ε := ε) (.call request)
      (w.advance false ((w.scope r).perform request)).1 = false) :
    (w.advance (α := α) (ε := ε) false ((w.scope r).perform request)).2.2.Aborted c := by
  have aborted : (w.scope r).context.AbortedFor c := h.toAbortedFor
  cases request with
  | start block mode =>
    rw [Scope.perform, Scope.start_of_aborted aborted] at still
    cases still
  | commit =>
    rw [Scope.perform, Scope.commit_of_aborted aborted]
    exact .advance aborted w (fun _ _ => Progress.noConfusion) _
  | rollback =>
    rw [Scope.perform, Scope.rollback_of_aborted aborted]
    exact .advance aborted w (fun _ _ => Progress.noConfusion) _
  | extend =>
    refine .advance ?_ w ?_ _
    · rw [Scope.perform, Scope.extend_snd]
      exact aborted
    · intro e rest stands
      simp only [Scope.perform, Scope.extend, Scope.tryExtend] at stands
      split at stands <;> cases stands
      exact ⟨_, rfl⟩
  | publish =>
    refine .advance ?_ w ?_ _
    · obtain ⟨published, same⟩ := Scope.publish_eq (w.scope r)
      rw [Scope.perform, Scope.silent_snd, same]
      exact ⟨aborted.phase, aborted.conflict, aborted.writes⟩
    · exact fun e rest stands => absurd stands (Scope.silent_ne_standing _ e rest)
  | _ =>
    rw [Scope.perform_of_aborted aborted rfl]
    exact .advance aborted w (fun _ _ => Progress.noConfusion) _

theorem resume {rest : Pending} (r : Runtime) (gaveUp : rest.isGiveUp = true) :
    (w.resume (α := α) (ε := ε) rest r).2.2.Aborted c := by
  cases rest with
  | giveUp reason report =>
    have counted : ((w.scope r).finishGiveUp reason).2.context.AbortedFor c := by
      unfold Scope.finishGiveUp
      dsimp only
      split
      · exact h.toAbortedFor
      · exact ⟨h.phase, h.conflict, h.writes⟩
    have resumed : ((w.scope r).resume (.giveUp reason report)).2.context.AbortedFor c := by
      rw [Scope.resume, Scope.silent_snd]
      exact counted
    unfold Worker.resume
    split
    · next report' answer s ended =>
      rw [ended] at resumed
      exact .settle resumed _ _
    · exact .advance resumed w (fun e rest stands => absurd stands (Scope.silent_ne_standing _ e rest)) _
  | _ => cases gaveUp

theorem step {action : WorkerAction α ε} {r : Runtime}
    (still : Seat.begins action (w.step r action).1 = false) : (w.step r action).2.2.Aborted c := by
  have aborted : (w.scope r).context.AbortedFor c := h.toAbortedFor
  have dispatch := dispatch_step w r action
  generalize w.step r action = out at dispatch still ⊢
  cases dispatch with
  | refuse => exact h
  | call => exact h.call r still
  | resume rest waiting =>
    rcases h.waits rest waiting with gaveUp | ⟨candidate, rfl⟩
    · exact h.resume r gaveUp
    · exact .advance ⟨h.phase, h.conflict, h.writes⟩ w (fun _ _ => Progress.noConfusion) _
  | enter =>
    rw [Worker.enter, Scope.start_of_aborted aborted] at still
    cases still
  | leave _ result =>
    cases result with
    | value a =>
      rw [Worker.leave, Worker.leaveBy, Scope.commit_of_aborted aborted]
      exact .afterConflict aborted w _
    | failure e =>
      rw [Worker.leave, Worker.leaveBy, Scope.commit_of_aborted aborted]
      exact .afterConflict aborted w _
    | conflict c' =>
      simp only [Worker.leave, Worker.leaveOnConflict]
      rw [if_neg (by rw [aborted.phase]; exact Phase.noConfusion)]
      dsimp only
      rw [Scope.rollback_of_aborted ⟨h.phase, h.conflict, h.writes⟩]
      exact .afterConflict ⟨h.phase, h.conflict, h.writes⟩ w _
  | decide _ b c' _ control =>
    cases control with
    | stop => exact .giveUp aborted w _ _ _
    | retry =>
      simp only [Worker.decide] at still
      rw [Scope.start_of_aborted ⟨h.phase, h.conflict, h.writes⟩] at still
      cases still
  | unwind =>
    rw [Worker.unwind, Scope.rollback_of_aborted aborted]
    exact .settle aborted _ _

/-! ## What the attempt still answers -/

variable (free : w.isBusy = false)

include free

theorem step_access {request : Request} (access : request.isAccess = true) (r : Runtime) :
    w.step (α := α) (ε := ε) r (.call request) = (.replied (.aborted c), r, w) := by
  rw [step_call_of_idle free, Scope.perform_of_aborted h.toAbortedFor access]
  exact settle_scope free _ r

theorem step_commit (r : Runtime) :
    w.step (α := α) (ε := ε) r (.call .commit) = (.replied (.verdict false), r, w) := by
  rw [step_call_of_idle free, Scope.perform, Scope.commit_of_aborted h.toAbortedFor]
  exact settle_scope free _ r

theorem step_rollback (r : Runtime) :
    w.step (α := α) (ε := ε) r (.call .rollback) = (.replied .done, r, w) := by
  rw [step_call_of_idle free, Scope.perform, Scope.rollback_of_aborted h.toAbortedFor]
  exact settle_scope free _ r

end

end Aborted

end Worker

end TransactionalMemory
