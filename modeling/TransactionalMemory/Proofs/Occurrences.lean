import TransactionalMemory.Proofs.Counters
import TransactionalMemory.Proofs.Recall

/-! # What occurs in a step

Whether an attempt has ended in a step, and how, and whether a block has given up, is told from the step as
others see it, from the phase of the attempt before and after, the call that went on and the response
(`Worker.occurrences`); the counters have no part in that.

`Worker.counting_step` says that a step counts what occurs in it, and nothing else.  It needs that what is
left of a call aborts an active attempt only, which every step keeps (`Worker.poised_step`).
-/

namespace TransactionalMemory

variable {α ε : Type}

/-! ## Standing before an abort -/

/-- What is left of the call may end in an abort. -/
def Pending.mayAbort : Pending → Bool
  | abort .. | failCommit _ | extend _ (.recheck ..) => true
  | _ => false

theorem Pending.call_of_mayAbort {rest : Pending} (may : rest.mayAbort = true) : rest.isGiveUp = false := by
  cases rest with
  | giveUp reason report => cases may
  | _ => rfl

namespace Scope

variable {s : Scope}

/-- A context that is not active has nothing to stand for in an access. -/
theorem exists_obstacle (inactive : s.context.phase ≠ .active) : ∃ a, s.obstacle? = some a ∧
    a ≠ .answered .done ∧ ∀ e rest, a ≠ .standing e rest := by
  cases obstacle : s.obstacle? with
  | none => exact absurd (Leads.obstacle?_eq_none obstacle) inactive
  | some a =>
    unfold obstacle? at obstacle
    refine ⟨a, rfl, ?_, fun e rest => ?_⟩ <;> split at obstacle <;> cases obstacle <;> nofun

theorem active_of_commit_standing {site : AbortSite} {e : Event} {rest : Pending}
    (stands : (s.commit site).1 = .standing e rest) : s.context.phase = .active := by
  unfold commit at stands
  split at stands
  · cases stands
  · cases stands
  · cases stands
  · assumption

/-- A call that stands and may abort the attempt has found it active. -/
theorem active_of_standing {request : Request} {e : Event} {rest : Pending}
    (stands : (s.perform request).1 = .standing e rest) (may : rest.mayAbort = true) :
    s.context.phase = .active := by
  by_contra inactive
  obtain ⟨a, obstacle, undone, running⟩ := exists_obstacle inactive
  cases request with
  | start block mode => exact silent_ne_standing _ _ _ stands
  | probe l =>
    rw [perform, probe, obstacle] at stands
    exact running e rest stands
  | load l kind =>
    rw [perform, load, obstacle] at stands
    exact running e rest stands
  | read l kind =>
    have probed : s.probe l = (a, s) := by rw [probe, obstacle]
    rw [perform, read, probed] at stands
    split at stands
    · next done =>
      cases done
      exact undone rfl
    · exact running e rest stands
  | write l v =>
    rw [perform, write, obstacle] at stands
    exact running e rest stands
  | commit => exact inactive (active_of_commit_standing stands)
  | rollback => exact silent_ne_standing _ _ _ stands
  | extend =>
    unfold perform extend tryExtend at stands
    dsimp only at stands
    split at stands
    · cases stands
    · cases stands
      cases may
    · cases stands
  | publish => exact silent_ne_standing _ _ _ stands

theorem phase_of_commit_standing (h : s.Holding) {site : AbortSite} {e : Event} {rest : Pending}
    (stands : (s.commit site).1 = .standing e rest) : (s.commit site).2.context.phase = .active :=
  ((Segment.commit h site).standing e rest stands).1.phase.trans (active_of_commit_standing stands)

/-- A call that stands has not changed the phase. -/
theorem phase_of_standing (h : s.Holding) {request : Request} {e : Event} {rest : Pending}
    (stands : (s.perform request).1 = .standing e rest) (may : rest.mayAbort = true) :
    (s.perform request).2.context.phase = .active := by
  have active := active_of_standing stands may
  cases request with
  | start block mode => exact absurd stands (silent_ne_standing _ _ _)
  | probe l => exact ((Segment.probe s).standing e rest stands).1.phase.trans active
  | load l kind => exact ((Segment.load s).standing e rest stands).1.phase.trans active
  | read l kind => exact ((Segment.read s).standing e rest stands).1.phase.trans active
  | write l v => exact s.phase_write.trans active
  | commit => exact phase_of_commit_standing h stands
  | rollback => exact absurd stands (silent_ne_standing _ _ _)
  | extend =>
    rw [perform, extend_snd]
    exact active
  | publish => exact absurd stands (silent_ne_standing _ _ _)

end Scope

namespace Worker

variable {w : Worker} {r : Runtime} {mode : Mode}

/-- What is left of a call can abort an active attempt only. -/
def Poised (w : Worker) : Prop :=
  ∀ rest, w.pending = some rest → rest.mayAbort = true → w.context.phase = .active

section

variable {action : WorkerAction α ε} {out : Response α ε × Runtime × Worker} {p : Progress × Scope}

theorem Poised.of_giveUp (waiting : ∀ rest, w.pending = some rest → rest.isGiveUp = true) : w.Poised := by
  intro rest same may
  cases (waiting rest same).symm.trans (Pending.call_of_mayAbort may)

theorem Poised.of_free (free : w.pending = none) : w.Poised := by
  intro rest waiting
  rw [free] at waiting
  cases waiting

theorem Poised.of_relays (relays : Relays p out)
    (stands : ∀ e rest, p.1 = .standing e rest → rest.mayAbort = true → p.2.context.phase = .active) :
    out.2.2.Poised := by
  intro rest waiting may
  have phase : out.2.2.context.phase = p.2.context.phase := congrArg (·.context.phase) relays.landing
  rw [phase]
  rcases relays.pending rest waiting with gaveUp | ⟨e, standing⟩
  · cases gaveUp.symm.trans (Pending.call_of_mayAbort may)
  · exact stands e rest standing may

theorem Poised.afterConflict (w : Worker) (c : Conflict) (s : Scope) :
    (w.afterConflict (α := α) (ε := ε) c s).2.2.Poised := by
  refine .of_giveUp fun rest waiting => ?_
  rcases (Relays.afterConflict (a := .commitLost) rfl w c).pending rest waiting with gaveUp | ⟨e, stands⟩
  · exact gaveUp
  · cases stands

theorem Poised.resume (h : (w.scope r).Holding) {rest : Pending}
    (poised : rest.mayAbort = true → w.context.phase = .active) :
    (w.resume (α := α) (ε := ε) rest r).2.2.Poised := by
  refine .of_relays (.resume w rest r) fun e rest' stands may => ?_
  cases rest with
  | abort c site =>
    rcases h.finishAbort c site with ⟨f, faulted⟩ | ⟨s, ended, -⟩
    · rw [Scope.resume, faulted] at stands
      cases stands
    · rw [Scope.resume, ended] at stands
      cases site <;> cases stands
  | failCommit site => exact poised rfl
  -- A call that is taken up after the bound has moved may come to stand again, for the next read of its loop.
  | extend candidate next =>
    have quiet := ((Scope.Segment.extended (w.scope r) candidate next).standing e rest' stands).1
    refine quiet.phase.trans ?_
    cases next with
    | recheck l kind slot stamp v => exact poised rfl
    | answer => cases stands
    | loadHeld l kind =>
      simp only [Scope.resume, Scope.afterExtension, Scope.onExtension, Scope.stop, Scope.conclude,
        Scope.loadHeld] at stands
      split at stands <;> cases stands
  | giveUp reason report => exact absurd stands (Scope.silent_ne_standing _ _ _)

theorem poised_step (h : (w.scope r).Holding) (poised : w.Poised) (action : WorkerAction α ε) :
    (w.step r action).2.2.Poised := by
  have dispatch := dispatch_step w r action
  generalize w.step r action = out at dispatch ⊢
  cases dispatch with
  | refuse => exact poised
  | call _ request => exact .of_relays (.advance w false _) fun _ _ => Scope.phase_of_standing h
  | resume rest waiting => exact .resume h (poised rest waiting)
  | enter _ block mode =>
    unfold enter
    split <;> exact .of_free rfl
  | leave _ result =>
    cases result with
    | value a => exact .of_relays (.leaveBy w _ r) fun _ _ stands _ => Scope.phase_of_commit_standing h stands
    | failure e => exact .of_relays (.leaveBy w _ r) fun _ _ stands _ => Scope.phase_of_commit_standing h stands
    | conflict c =>
      rw [leave, leaveOnConflict]
      split
      · exact .of_free rfl
      · split
        · exact .of_free rfl
        · exact .afterConflict w c _
  | decide _ b c _ control =>
    cases control with
    | stop => exact .of_giveUp fun rest waiting => by cases waiting; rfl
    | retry =>
      simp only [decide]
      split
      · exact .of_free rfl
      · exact .of_free rfl
  | unwind =>
    unfold unwind
    split <;> exact .of_free rfl

end

/-! ## What a step counts -/

/-- The conflict that a step may abort the attempt for, met by a call before or raised by the body of a
    block. -/
def cause? (w : Worker) : WorkerAction α ε → Option Conflict
  | .resume => match w.pending with
    | some (.abort c _) => some c
    | _ => none
  | .leave (.conflict c) => some c
  | _ => none

/-- Why a block has ended without a result in a step, if one has. -/
def gaveUp? (w : Worker) : WorkerAction α ε → Response α ε → Option GiveUpReason
  | .resume, .ended (.failed _) => match w.pending with
    | some (.giveUp reason _) => some reason
    | _ => none
  | _, _ => none

/-- All that has occurred in a step of the worker, whose last attempt was begun in the given mode. -/
def occurrences (w : Worker) (r : Runtime) (mode : Mode) (action : WorkerAction α ε)
    (out : Response α ε × Runtime × Worker) : List Occurrence :=
  Scope.endings mode (w.cause? action) (w.scope r) (landing out) ++
    (w.gaveUp? action out.1).toList.map .gaveUp

/-- The mode of the attempt that has begun in a step, if one has. -/
def begins? (w : Worker) : WorkerAction α ε → Response α ε → Option Mode
  | .call (.start _ mode), .replied .done => some mode
  | .enter _ mode, .attempt => some mode
  | .decide _, .attempt => w.blocks.head?.map (·.mode)
  | _, _ => none

/-- What a step does to the counters: it begins an attempt, which is not counted, or it counts all that has
    occurred. -/
inductive Counting (w : Worker) (r : Runtime) (mode : Mode) (action : WorkerAction α ε)
    (out : Response α ε × Runtime × Worker) : Prop
  | begins (begun : Mode) (told : w.begins? action out.1 = some begun)
      (same : out.2.2.context.mode = begun) (active : out.2.2.context.phase = .active)
      (total : ∀ k, (landing out).total k = (w.scope r).total k)
      (nothing : w.occurrences r mode action out = [])
  | goes (plain : w.begins? action out.1 = none)
      (counted : (w.scope r).Counted (w.occurrences r mode action out) (landing out))
      (active : out.2.2.context.phase = .active → w.context.phase = .active)

section

variable {action : WorkerAction α ε} {response : Response α ε} {rest : Pending}

theorem begins?_of_plain (call : ∀ block mode, action ≠ .call (.start block mode))
    (other : response ≠ .attempt) : w.begins? action response = none := by
  unfold begins?
  split
  · exact absurd rfl (call _ _)
  · exact absurd rfl other
  · exact absurd rfl other
  · rfl

theorem gaveUp?_of_waiting (waiting : w.pending = some rest) (call : rest.isGiveUp = false)
    (response : Response α ε) : w.gaveUp? .resume response = none := by
  unfold gaveUp?
  split
  · rw [waiting]
    cases rest with
    | giveUp reason report => cases call
    | _ => rfl
  · rfl

/-- Between the ends of blocks, what occurs is that the attempt ends. -/
theorem occurrences_of_attempt {out : Response α ε × Runtime × Worker} {c : Option Conflict}
    (going : w.gaveUp? action out.1 = none) (cause : w.cause? action = c) :
    w.occurrences r mode action out = Scope.endings mode c (w.scope r) (landing out) := by
  rw [occurrences, going, cause]
  exact List.append_nil _

end

/-- An attempt ends at most once in a step. -/
theorem ends_cases (w : Worker) (r : Runtime) (mode : Mode) (action : WorkerAction α ε)
    (out : Response α ε × Runtime × Worker) :
    (w.occurrences r mode action out).filter (·.isEnd) = [] ∨
    ∃ x, (w.occurrences r mode action out).filter (·.isEnd) = [x] ∧ w.context.phase = .active ∧
      out.2.2.context.phase ≠ .active := by
  have others : ((w.gaveUp? action out.1).toList.map Occurrence.gaveUp).filter (·.isEnd) = [] := by
    cases w.gaveUp? action out.1 <;> rfl
  rw [occurrences, List.filter_append, others, List.append_nil]
  unfold Scope.endings
  split
  · next before after =>
    refine Or.inr ⟨_, rfl, before, fun active => ?_⟩
    cases active.symm.trans after
  · next before after =>
    cases w.cause? action with
    | none => exact Or.inl rfl
    | some c =>
      refine Or.inr ⟨_, rfl, before, fun active => ?_⟩
      cases active.symm.trans after
  · exact Or.inl rfl

namespace Counting

variable {action : WorkerAction α ε} {out : Response α ε × Runtime × Worker} {s : Scope}

/-- A step in which an attempt may have ended, and that leads to the given state. -/
theorem of_endings {c : Option Conflict} (begun : w.context.phase = .active → mode = w.context.mode)
    (plain : w.begins? action out.1 = none) (going : w.gaveUp? action out.1 = none)
    (cause : w.cause? action = c) (landed : landing out = s)
    (counted : (w.scope r).Counted (Scope.endings w.context.mode c (w.scope r) s) s)
    (active : s.context.phase = .active → w.context.phase = .active) :
    Counting w r mode action out := by
  subst landed
  refine .goes plain ?_ active
  rw [occurrences_of_attempt going cause, Scope.endings_congr begun]
  exact counted

theorem still (begun : w.context.phase = .active → mode = w.context.mode)
    (plain : w.begins? action out.1 = none) (going : w.gaveUp? action out.1 = none)
    (landed : landing out = w.scope r) : Counting w r mode action out :=
  .of_endings begun plain going rfl landed (.of_same (.refl _) rfl) id

theorem start (h : (w.scope r).Holding) (w' : Worker) (block : Nat) (begun : Mode) {action : WorkerAction α ε}
    {response : Response α ε} (told : w.begins? action response = some begun)
    (going : w.gaveUp? action response = none) :
    ∃ s, (w.scope r).start block begun = (.ok (), s) ∧ Counting w r mode action (w'.settle response s) := by
  obtain ⟨table, -, started⟩ := h.start_eq
  refine ⟨_, started block begun, .begins begun told rfl rfl (fun _ => rfl) ?_⟩
  rw [occurrences_of_attempt going rfl]
  exact Scope.endings_of_active rfl

theorem leaveBy (begun : w.context.phase = .active → mode = w.context.mode) (result : BlockResult α ε)
    {body : BodyResult α ε} (value : w.cause? (.leave body : WorkerAction α ε) = none) :
    Counting w r mode (.leave body) (w.leaveBy result r) := by
  refine .of_endings begun (begins?_of_plain nofun (attempt_ne_leaveBy w result r)) rfl value
    (landing_leaveBy ..) (Scope.counted_commit _ _) fun active => ?_
  by_contra inactive
  rw [Scope.commit_snd_of_inactive inactive] at active
  exact inactive active

section

variable (h : (w.scope r).Holding) (begun : w.context.phase = .active → mode = w.context.mode)

include h begun

theorem call (request : Request) :
    Counting (α := α) (ε := ε) w r mode (.call request) (w.advance false ((w.scope r).perform request)) := by
  -- A call that begins an attempt counts nothing; any other one may have ended the attempt.
  by_cases starts : ∃ block mode, request = .start block mode
  · obtain ⟨block, mode', rfl⟩ := starts
    obtain ⟨s, started, counting⟩ : ∃ s, _ ∧ Counting (α := α) (ε := ε) w r mode (.call (.start block mode'))
        (w.settle (.replied .done) s) := Counting.start h w block mode' rfl rfl
    rw [Scope.perform, started]
    exact counting
  · have plain : ∀ block mode, request ≠ .start block mode := fun block mode same =>
      starts ⟨block, mode, same⟩
    refine .of_endings begun (begins?_of_plain ?_ (attempt_ne_advance w false _)) rfl rfl
      (landing_advance ..) (Scope.counted_perform h plain) (Scope.active_of_perform plain)
    rintro block mode ⟨⟩
    exact plain block mode rfl

theorem leaveOnConflict (c : Conflict) :
    Counting (α := α) (ε := ε) w r mode (.leave (.conflict c)) (w.leaveOnConflict c r) := by
  unfold Worker.leaveOnConflict
  dsimp only
  split
  · exact .still begun rfl rfl rfl
  · next tally counted =>
    obtain ⟨s, rolled, -, -, aborted⟩ := h.rollback_counted tally (w.scope r).context.lastConflict
    have same := Scope.uncounted_rollback { w.scope r with context := { (w.scope r).context with tally } }
    rw [rolled] at same ⊢
    refine .of_endings begun (begins?_of_plain nofun (afterConflict_ne rfl)) rfl rfl
      (landing_afterConflict ..) ?_ ?_
    -- A conflict of the body is counted only if no call has aborted the attempt before, so it is not counted twice.
    · by_cases active : w.context.phase = .active
      · rw [if_pos (show (w.scope r).context.phase = .active from active)] at counted
        exact .of_abort counted active (aborted active) same
      · rw [if_neg (show (w.scope r).context.phase ≠ .active from active)] at counted
        cases counted
        rw [Scope.endings_of_inactive active]
        exact Scope.Uncounted.counted ⟨same.mode, same.published, same.tally⟩
    · intro active
      by_contra inactive
      rw [Scope.rollback_of_inactive (by exact inactive)] at rolled
      cases rolled
      exact inactive active

theorem unwind : Counting (α := α) (ε := ε) w r mode .unwind (w.unwind r) := by
  obtain ⟨s, rolled, -⟩ := h.rollback
  have counted : Scope.Counted _ (Scope.endings w.context.mode none _ _) _ := Scope.counted_rollback h
  unfold Worker.unwind
  rw [rolled] at counted ⊢
  refine .of_endings begun rfl rfl rfl rfl counted fun active => ?_
  by_contra inactive
  rw [Scope.rollback_of_inactive inactive] at rolled
  cases rolled
  exact inactive active

theorem resume {rest : Pending} (waiting : w.pending = some rest)
    (poised : rest.mayAbort = true → w.context.phase = .active) :
    Counting (α := α) (ε := ε) w r mode .resume (w.resume rest r) := by
  have plain : w.begins? (.resume : WorkerAction α ε) (w.resume (α := α) (ε := ε) rest r).1 = none :=
    begins?_of_plain nofun (attempt_ne_resume w rest r)
  have landed := landing_resume (α := α) (ε := ε) w rest r
  have ended : ((w.scope r).resume rest).2.context.phase = .active → w.context.phase = .active :=
    Scope.active_of_resume
  cases rest with
  | abort c site =>
    refine .of_endings begun plain (gaveUp?_of_waiting waiting rfl _) (c := some c) ?_ landed
      (Scope.counted_finishAbort h (poised rfl) c site) ended
    simp only [cause?, waiting]
  | failCommit site =>
    exact .of_endings begun plain (gaveUp?_of_waiting waiting rfl _) rfl landed (.of_same (.refl _) rfl) ended
  | extend candidate next =>
    exact .of_endings begun plain (gaveUp?_of_waiting waiting rfl _) rfl landed
      (.of_looks (.extended _ candidate next)) ended
  | giveUp reason report =>
    have cause : w.cause? (.resume : WorkerAction α ε) = none := by simp only [cause?, waiting]
    rcases Scope.counted_finishGiveUp (w.scope r) reason with ⟨f, faulted⟩ | ⟨s, gaveUp, counted, phase⟩
    · have told : w.resume (α := α) (ε := ε) (.giveUp reason report) r = w.close (.faulted f) (w.scope r) := by
        simp only [Worker.resume, Scope.resume, faulted, Scope.silent, advance, Pending.isOfBlock, ↓reduceIte]
      rw [told]
      exact .still begun rfl rfl rfl
    · have told : w.resume (α := α) (ε := ε) (.giveUp reason report) r =
          w.close (.ended (.failed report)) s := by
        simp only [Worker.resume, Scope.resume, gaveUp, Scope.silent]
      rw [told]
      refine .goes rfl ?_ (phase ▸ id)
      have occurred : w.occurrences r mode .resume (w.close (.ended (.failed report) : Response α ε) s) =
          [.gaveUp reason] := by
        rw [occurrences, cause, landing_close, Scope.endings_of_same phase]
        simp only [gaveUp?, close, settle, waiting]
        rfl
      rw [occurred]
      exact counted

end

end Counting

theorem counting_step (h : (w.scope r).Holding) (poised : w.Poised)
    (begun : w.context.phase = .active → mode = w.context.mode) (action : WorkerAction α ε) :
    Counting w r mode action (w.step r action) := by
  have dispatch := dispatch_step w r action
  generalize w.step r action = out at dispatch ⊢
  cases dispatch with
  | refuse _ why =>
    refine .still begun ?_ ?_ rfl
    · cases action with
      | call request => cases request <;> rfl
      | _ => rfl
    · cases action <;> rfl
  | call _ request => exact .call h begun request
  | resume rest waiting => exact .resume h begun waiting (poised rest waiting)
  | enter _ block begun =>
    let w' : Worker := { w with blocks := { id := block, mode := begun } :: w.blocks }
    obtain ⟨s, started, counting⟩ : ∃ s, _ ∧ Counting (α := α) (ε := ε) w r mode (.enter block begun)
        (w'.settle .attempt s) := Counting.start h w' block begun rfl rfl
    unfold enter
    rw [started]
    exact counting
  | leave _ result =>
    cases result with
    | value a => exact .leaveBy begun _ rfl
    | failure e => exact .leaveBy begun _ rfl
    | conflict c => exact .leaveOnConflict h begun c
  | decide _ b c asking control =>
    cases control with
    | stop => exact .still begun rfl rfl rfl
    | retry =>
      -- The attempt is begun in the mode of the block whose caller was asked.
      have first : w.blocks.head? = some b := by
        obtain ⟨b', first, some⟩ := Option.bind_eq_some_iff.mp asking
        obtain ⟨c', -, same⟩ := Option.map_eq_some_iff.mp some
        cases same
        exact first
      have told : w.begins? (.decide .retry) (.attempt : Response α ε) = some b.mode := by rw [begins?, first]; rfl
      let w' : Worker := { w with
        blocks := { b with attempts := b.attempts + 1, question := none } :: w.blocks.tail }
      obtain ⟨s, started, counting⟩ : ∃ s, _ ∧ Counting w r mode (.decide .retry) (w'.settle .attempt s) :=
        Counting.start h w' b.id b.mode told rfl
      simp only [decide, scope] at started ⊢
      rw [started]
      exact counting
  | unwind => exact .unwind h begun

end Worker

end TransactionalMemory
