import Mathlib.Data.List.GetD
import TransactionalMemory.Proofs.Declarations

/-! # Blocks that are declared to only read

Declaring that a block only reads changes the statistics and nothing else, whether the block keeps the promise or
not (`declarations_change_statistics_only`): whatever clients do that do not look at declared modes and at
counters, the run is the same with some of the declarations left out (`System.Alike`), up to those modes and the
counter of declared commits.
-/

namespace TransactionalMemory

variable {α ε : Type}

/-! ## What is handed over -/

namespace Scope

variable {s : Scope}

section

variable (s : Scope)

theorem published_start (block : Nat) (mode : Mode) :
    (s.start block mode).2.runtime.published = s.runtime.published := by
  have released := s.uncounted_releaseWrites.published
  unfold start
  split
  · rfl
  · split
    · next given => rwa [given] at released
    · next given => rwa [given] at released

theorem published_finishAbort (c : Conflict) (site : AbortSite) :
    (s.finishAbort c site).2.runtime.published = s.runtime.published := by
  unfold finishAbort
  split
  · rfl
  · next tally _ =>
    -- The abort is counted by the context; what the runtime was handed stays.
    have rolled := uncounted_rollback { s with context := { s.context with tally, lastConflict := some c } }
    split
    · next failed =>
      rw [failed] at rolled
      exact rolled.published
    · next ended =>
      rw [ended] at rolled
      cases site <;> exact rolled.published

theorem published_storeWrites (stamp : Nat) :
    (s.storeWrites stamp).2.runtime.published = s.runtime.published := by
  unfold storeWrites
  dsimp only
  split
  · rfl
  · exact published_finishCommit _ false

theorem published_commit (site : AbortSite) :
    (s.commit site).2.runtime.published = s.runtime.published := by
  unfold commit
  split
  · rfl
  · rfl
  · rfl
  · split
    · exact published_finishCommit s true
    · dsimp only
      split
      · rfl
      · unfold commitAt
        dsimp only
        split
        · rfl
        · split
          · exact published_storeWrites _ _
          · split
            · rfl
            · exact published_storeWrites _ _
            · rfl

theorem published_finishGiveUp (reason : GiveUpReason) :
    (s.finishGiveUp reason).2.runtime.published = s.runtime.published := by
  unfold finishGiveUp
  dsimp only
  split <;> rfl

end

theorem Looks.published {s' : Scope} (looks : Looks s s') :
    s'.runtime.published = s.runtime.published := by
  obtain ⟨upper, reads, window, rfl⟩ := looks
  rfl

/-- The counters that the runtime was handed stay fair. -/
theorem fair_publish (fair : s.context.tally.Fair) (fair' : s.runtime.published.Fair) :
    s.publish.2.runtime.published.Fair := by
  unfold publish Runtime.publish
  dsimp only
  split
  · exact fair'
  · cases added : s.runtime.published.add s.context.tally with
    | error f => exact fair'
    | ok sum => exact (fair'.sum fair).of_checked added

theorem fair_perform (fair : s.context.tally.Fair) (fair' : s.runtime.published.Fair) (request : Request) :
    (s.perform request).2.runtime.published.Fair := by
  cases request with
  | start block mode =>
    rw [perform, silent_snd, published_start]
    exact fair'
  | probe l => exact (Looks.probe s).published ▸ fair'
  | load l kind => exact (Looks.load s).published ▸ fair'
  | read l kind => exact (Looks.read s).published ▸ fair'
  | write l v => exact s.uncounted_write.published ▸ fair'
  | commit => exact (s.published_commit _) ▸ fair'
  | rollback =>
    rw [perform, silent_snd, s.uncounted_rollback.published]
    exact fair'
  | extend =>
    rw [perform, extend_snd]
    exact fair'
  | publish =>
    rw [perform, silent_snd]
    exact fair_publish fair fair'

theorem published_resume (s : Scope) (rest : Pending) :
    (s.resume rest).2.runtime.published = s.runtime.published := by
  cases rest with
  | abort c site => exact s.published_finishAbort c site
  | failCommit site => rfl
  | extend candidate next => exact (Looks.extended s candidate next).published
  | giveUp reason report =>
    rw [resume, silent_snd]
    exact s.published_finishGiveUp reason

end Scope

namespace Worker

variable {w : Worker} {r : Runtime}

theorem published_leaveOnConflict (w : Worker) (r : Runtime) (c : Conflict) :
    (landing (w.leaveOnConflict (α := α) (ε := ε) c r)).runtime.published = r.published := by
  unfold leaveOnConflict
  dsimp only
  split
  · rfl
  · next tally _ =>
    have rolled := Scope.uncounted_rollback { w.scope r with context := { (w.scope r).context with tally } }
    split
    · next failed =>
      rw [failed] at rolled
      exact rolled.published
    · next ended =>
      rw [ended] at rolled
      rw [landing_afterConflict]
      exact rolled.published

theorem fair_step (fair : w.context.tally.Fair) (fair' : r.published.Fair) (action : WorkerAction α ε) :
    (landing (w.step r action)).runtime.published.Fair := by
  have dispatch := dispatch_step w r action
  generalize w.step r action = out at dispatch ⊢
  cases dispatch with
  | refuse => exact fair'
  | call _ request =>
    rw [landing_advance]
    exact Scope.fair_perform (s := w.scope r) fair fair' request
  | resume =>
    rw [landing_resume, Scope.published_resume]
    exact fair'
  | enter _ block mode =>
    rw [landing_enter, Scope.published_start]
    exact fair'
  | leave _ result =>
    cases result with
    | value a =>
      rw [leave, landing_leaveBy, Scope.published_commit]
      exact fair'
    | failure e =>
      rw [leave, landing_leaveBy, Scope.published_commit]
      exact fair'
    | conflict c =>
      rw [leave, published_leaveOnConflict]
      exact fair'
  | decide _ b c _ control =>
    cases control with
    | stop => exact fair'
    | retry =>
      rw [landing_retry, Scope.published_start]
      exact fair'
  | unwind =>
    rw [landing_unwind, (w.scope r).uncounted_rollback.published]
    exact fair'

end Worker

/-! ## Systems -/

/-- The action with no block declared to only read. -/
def Action.undeclared : Action α ε → Action α ε
  | .act owner action => .act owner action.undeclared
  | action => action

namespace System

/-- The systems are the same up to declared modes and the counters of declared commits. -/
structure Alike (s s' : System) : Prop where
  runtime : s.runtime.undeclared = s'.runtime.undeclared
  workers : ∀ o, (s.worker? o).map Worker.undeclared = (s'.worker? o).map Worker.undeclared
  announced : s.announced = s'.announced

/-- No counters have more declared commits than commits. -/
structure Fair (s : System) : Prop where
  published : s.runtime.published.Fair
  workers : ∀ o w, s.worker? o = some w → w.context.tally.Fair

variable {s s' : System} {owner : OwnerId} {w w' : Worker} {r r' : Runtime}

/-! ### Counters stay fair -/

theorem Fair.setWorker (fair : s.Fair) (published : r.published.Fair) (counts : w.context.tally.Fair) :
    Fair (setWorker { s with runtime := r } owner w) where
  published := published
  workers o w' there := by
    rw [worker?_setWorker] at there
    split at there
    · cases there
      exact counts
    · exact fair.workers o w' there

theorem Fair.erase (fair : s.Fair) (published : r.published.Fair) :
    Fair { s with runtime := r, workers := s.workers.erase owner.id } where
  published := published
  workers o w there := by
    rw [worker?_erase] at there
    split at there
    · cases there
    · exact fair.workers o w there

theorem Fair.drop (fair : s.Fair) (owner : OwnerId) : (s.drop (α := α) (ε := ε) owner).2.Fair := by
  unfold System.drop
  split
  · exact fair
  · next w here =>
    split
    · exact fair
    · have same := (w.scope s.runtime).uncounted_rollback
      split
      · next failed =>
        rw [failed] at same
        exact fair.erase (same.published ▸ fair.published)
      · next scope rolled =>
        rw [rolled] at same
        have published : scope.publish.2.runtime.published.Fair :=
          Scope.fair_publish (same.tally ▸ fair.workers owner w here) (same.published ▸ fair.published)
        split
        · next failed =>
          rw [failed] at published
          exact fair.erase published
        · next done =>
          rw [done] at published
          exact fair.erase published

theorem Fair.step (fair : s.Fair) (a : Action α ε) : (s.step a).2.Fair := by
  cases a with
  | announce =>
    show (s.announce (α := α) (ε := ε)).2.Fair
    unfold announce Runtime.allocateOwner
    dsimp only
    split <;> next same => split at same <;> cases same; exact ⟨fair.published, fair.workers⟩
  | register owner =>
    show (s.register (α := α) (ε := ε) owner).2.Fair
    unfold register
    split
    · dsimp only
      split
      · exact ⟨fair.published, fair.workers⟩
      · exact Fair.setWorker (s := s.withdraw owner) ⟨fair.published, fair.workers⟩ fair.published .zero
    · exact fair
  | drop owner => exact fair.drop owner
  | act owner action =>
    cases here : s.worker? owner with
    | none =>
      simp only [System.step, System.act, here]
      exact fair
    | some w =>
      have counts := fair.workers owner w here
      rw [System.step, act_eq here]
      exact fair.setWorker (Worker.fair_step counts fair.published action)
        (counts.counts (w.counts_step s.runtime action))

/-! ### A step of two systems -/

theorem Alike.refl (s : System) : s.Alike s := ⟨rfl, fun _ => rfl, rfl⟩

theorem Alike.setWorker (alike : s.Alike s') (runtime : r.undeclared = r'.undeclared)
    (worker : w.undeclared = w'.undeclared) :
    Alike (setWorker { s with runtime := r } owner w) (setWorker { s' with runtime := r' } owner w') where
  runtime := runtime
  workers o := by
    rw [worker?_setWorker, worker?_setWorker]
    split
    · exact congrArg some worker
    · exact alike.workers o
  announced := alike.announced

theorem Alike.erase (alike : s.Alike s') (runtime : r.undeclared = r'.undeclared) :
    Alike { s with runtime := r, workers := s.workers.erase owner.id }
      { s' with runtime := r', workers := s'.workers.erase owner.id } where
  runtime := runtime
  workers o := by
    rw [worker?_erase, worker?_erase]
    split
    · rfl
    · exact alike.workers o
  announced := alike.announced

/-- The worker of an owner is in both systems or in none. -/
theorem Alike.worker_cases (alike : s.Alike s') (owner : OwnerId) :
    s.worker? owner = none ∧ s'.worker? owner = none ∨
      ∃ w w', s.worker? owner = some w ∧ s'.worker? owner = some w' ∧ w.undeclared = w'.undeclared := by
  have same := alike.workers owner
  cases here : s.worker? owner with
  | none =>
    rw [here, Option.map_none, eq_comm, Option.map_eq_none_iff] at same
    exact Or.inl ⟨rfl, same⟩
  | some w =>
    rw [here, Option.map_some, eq_comm, Option.map_eq_some_iff] at same
    obtain ⟨w', there, same⟩ := same
    exact Or.inr ⟨w, w', rfl, there, same.symm⟩

theorem Alike.announce (alike : s.Alike s') :
    (s.announce (α := α) (ε := ε)).1 = (s'.announce (α := α) (ε := ε)).1 ∧
      (s.announce (α := α) (ε := ε)).2.Alike (s'.announce (α := α) (ε := ε)).2 := by
  have same : Prod.map id Runtime.undeclared s.runtime.allocateOwner =
      Prod.map id Runtime.undeclared s'.runtime.allocateOwner := by
    rw [← Runtime.allocateOwner_undeclared, ← Runtime.allocateOwner_undeclared, alike.runtime]
  unfold System.announce
  generalize s.runtime.allocateOwner = out, s'.runtime.allocateOwner = out' at same ⊢
  rcases out with ⟨f | owner, r⟩ <;> rcases out' with ⟨f' | owner', r'⟩ <;>
    obtain ⟨answer, runtime⟩ := Prod.mk.inj same <;> cases answer
  · exact ⟨rfl, runtime, alike.workers, alike.announced⟩
  · exact ⟨rfl, runtime, alike.workers, congrArg (owner :: ·) alike.announced⟩

theorem Alike.register (alike : s.Alike s') (owner : OwnerId) :
    (s.register (α := α) (ε := ε) owner).1 = (s'.register (α := α) (ε := ε) owner).1 ∧
      (s.register (α := α) (ε := ε) owner).2.Alike (s'.register (α := α) (ε := ε) owner).2 := by
  have withdrawn : (s.withdraw owner).Alike (s'.withdraw owner) :=
    ⟨alike.runtime, alike.workers, congrArg (List.erase · owner) alike.announced⟩
  have settings : s'.runtime.undeclared.settings = s.runtime.settings := by rw [← alike.runtime]; rfl
  rw [Runtime.undeclared_settings] at settings
  unfold System.register
  by_cases member : owner ∈ s.announced
  · rw [if_pos member, if_pos (alike.announced ▸ member)]
    dsimp only
    rw [settings]
    split
    · exact ⟨rfl, withdrawn⟩
    · exact ⟨rfl, withdrawn.setWorker alike.runtime rfl⟩
  · rw [if_neg member, if_neg (alike.announced ▸ member)]
    exact ⟨rfl, alike⟩

theorem Alike.drop (alike : s.Alike s') (fair : s.Fair) (fair' : s'.Fair) (owner : OwnerId) :
    (s.drop (α := α) (ε := ε) owner).1 = (s'.drop (α := α) (ε := ε) owner).1 ∧
      (s.drop (α := α) (ε := ε) owner).2.Alike (s'.drop (α := α) (ε := ε) owner).2 := by
  unfold System.drop
  rcases alike.worker_cases owner with ⟨here, there⟩ | ⟨w, w', here, there, workers⟩
  · rw [here, there]
    exact ⟨rfl, alike⟩
  · have idle : (w.isBusy || !w.blocks.isEmpty) = (w'.isBusy || !w'.blocks.isEmpty) := by
      have busy : w.undeclared.isBusy = w'.undeclared.isBusy := by rw [workers]
      have blocks : w.undeclared.blocks.isEmpty = w'.undeclared.blocks.isEmpty := by rw [workers]
      simp only [Worker.isBusy_undeclared, Worker.undeclared_blocks, List.isEmpty_map] at busy blocks
      rw [busy, blocks]
    rw [here, there]
    dsimp only
    rw [idle]
    split
    · exact ⟨rfl, alike⟩
    -- The two rollbacks have the same outcome, and so have the two hand-overs after them; either way both contexts go.
    · have rolled : Prod.map id Scope.undeclared (w.scope s.runtime).rollback =
          Prod.map id Scope.undeclared (w'.scope s'.runtime).rollback := by
        rw [← Scope.rollback_undeclared, ← Scope.rollback_undeclared, ← Worker.scope_undeclared,
          ← Worker.scope_undeclared, workers, alike.runtime]
      have kept := (w.scope s.runtime).uncounted_rollback
      have kept' := (w'.scope s'.runtime).uncounted_rollback
      generalize (w.scope s.runtime).rollback = out, (w'.scope s'.runtime).rollback = out' at rolled kept kept' ⊢
      rcases out with ⟨f | _, scope⟩ <;> rcases out' with ⟨f' | _, scope'⟩ <;>
        obtain ⟨answer, scopes⟩ := Prod.mk.inj rolled <;> cases answer
      · exact ⟨rfl, alike.erase (congrArg Scope.runtime scopes)⟩
      · have published : Prod.map id Scope.undeclared scope.publish = Prod.map id Scope.undeclared scope'.publish := by
          rw [← Scope.publish_undeclared (kept.tally ▸ fair.workers owner w here) (kept.published ▸ fair.published),
            ← Scope.publish_undeclared (kept'.tally ▸ fair'.workers owner w' there)
              (kept'.published ▸ fair'.published)]
          exact congrArg Scope.publish scopes
        dsimp only
        generalize scope.publish = out, scope'.publish = out' at published ⊢
        rcases out with ⟨f | _, scope⟩ <;> rcases out' with ⟨f' | _, scope'⟩ <;>
          obtain ⟨answer, scopes⟩ := Prod.mk.inj published <;> cases answer
        · exact ⟨rfl, alike.erase (congrArg Scope.runtime scopes)⟩
        · exact ⟨rfl, alike.erase (congrArg Scope.runtime scopes)⟩

theorem Alike.act (alike : s.Alike s') (fair : s.Fair) (fair' : s'.Fair) (owner : OwnerId)
    {action action' : WorkerAction α ε} (same : action.undeclared = action'.undeclared) :
    (s.act owner action).1 = (s'.act owner action').1 ∧
      (s.act owner action).2.Alike (s'.act owner action').2 := by
  rcases alike.worker_cases owner with ⟨here, there⟩ | ⟨w, w', here, there, workers⟩
  · simp only [System.act, here, there, true_and]
    exact alike
  -- Both steps are, without declarations, the step of one and the same worker on one and the same runtime.
  · have stepped : Worker.plain (w.step s.runtime action) = Worker.plain (w'.step s'.runtime action') := by
      rw [← Worker.step_undeclared (fair.workers owner w here) fair.published,
        ← Worker.step_undeclared (fair'.workers owner w' there) fair'.published, workers, alike.runtime, same]
    obtain ⟨response, rest⟩ := Prod.mk.inj stepped
    obtain ⟨runtime, worker⟩ := Prod.mk.inj rest
    rw [act_eq here, act_eq there]
    exact ⟨response, alike.setWorker runtime worker⟩

/-- Actions that are the same up to declarations are answered alike. -/
theorem Alike.step (alike : s.Alike s') (fair : s.Fair) (fair' : s'.Fair) {a a' : Action α ε}
    (same : a.undeclared = a'.undeclared) :
    (s.step a).1 = (s'.step a').1 ∧ (s.step a).2.Alike (s'.step a').2 := by
  cases a with
  | announce =>
    cases a' <;> cases same
    exact alike.announce
  | register owner =>
    cases a' <;> cases same
    exact alike.register owner
  | drop owner =>
    cases a' <;> cases same
    exact alike.drop fair fair' owner
  | act owner action =>
    cases a' with
    | act owner' action' =>
      obtain ⟨rfl, actions⟩ := Action.act.inj same
      exact alike.act fair fair' owner actions
    | _ => cases same

/-! ## Runs -/

/-- The first actions of a run in which each of them is chosen by what has been answered before and by the
    system as it is then. -/
def chosen (next : List (Response α ε) → System → Action α ε) (s : System) : Nat → List (Action α ε)
  | 0 => []
  | n + 1 =>
    let actions := s.chosen next n
    let (responses, s) := s.run actions
    actions ++ [next responses s]

theorem fair_run (fair : s.Fair) (actions : List (Action α ε)) : (s.run actions).2.Fair := by
  induction actions generalizing s with
  | nil => exact fair
  | cons a actions ih => exact ih (fair.step a)

theorem Fair.start {settings : Settings} (new : Runtime.new? settings = .ok r) (m : Memory) :
    Fair { runtime := { r with memory := m } } where
  published := Runtime.published_of_new? new ▸ .zero
  workers o w there := by simp [System.worker?] at there

end System

/-- Declaring that a block only reads changes statistics only.  Let `next` choose who takes the next step of a
    run and what is done in it, by all that was answered before and by the system as it is, but not by declared
    modes and by counters of declared commits; and let `next'` choose the same with other declarations.  Then
    every step is answered the same, faults included, and leaves the same system, up to those modes and counters.

In particular it makes no difference whether blocks write that were declared to only read. -/
theorem declarations_change_statistics_only {settings : Settings} {r : Runtime}
    (new : Runtime.new? settings = .ok r) (m : Memory)
    {next next' : List (Response α ε) → System → Action α ε}
    (blind : ∀ responses s s', s.Alike s' → (next responses s).undeclared = (next' responses s').undeclared)
    (n : Nat) :
    let start : System := { runtime := { r with memory := m } }
    let ran := start.run (start.chosen next n)
    let ran' := start.run (start.chosen next' n)
    ran.1 = ran'.1 ∧ ran.2.Alike ran'.2 := by
  -- By induction on the number of steps: as long as the systems are alike, the next actions are the same up to
  -- declarations, and the steps that they make lead to systems that are alike.
  intro start
  have fair : start.Fair := .start new m
  induction n with
  | zero => exact ⟨rfl, .refl start⟩
  | succ n ih =>
    obtain ⟨responses, alike⟩ := ih
    have same := blind (start.run (start.chosen next n)).1 _ _ alike
    have stepped := alike.step (System.fair_run fair _) (System.fair_run fair _) same
    simp only [System.chosen, System.run_snoc]
    rw [← responses]
    exact ⟨congrArg (_ ++ [·]) stepped.1, stepped.2⟩

/-- The first context writes in a block, after a read and a commit of the second one, and hands its counters
    over; the block may be declared to only read or not. -/
theorem declarations_change_statistics_only_of_writer :
    let next : Mode → List (Response Unit Unit) → System → Action Unit Unit := fun mode responses _ =>
      [.announce, .announce, .register ⟨1⟩, .register ⟨2⟩, .act ⟨1⟩ (.enter 0 mode),
        .act ⟨1⟩ (.call (.read ⟨16, 0⟩ .u64)), .act ⟨2⟩ (.call (.start 0 .regular)),
        .act ⟨2⟩ (.call (.write ⟨16, 1⟩ (.u64 9))), .act ⟨2⟩ (.call .commit),
        .act ⟨1⟩ (.call (.write ⟨16, 0⟩ (.u64 7))), .act ⟨1⟩ (.leave (.value ())),
        .act ⟨1⟩ (.call .publish)].getD responses.length .announce
    let start : System := { runtime := { smallRuntime with memory := pair } }
    let ran := start.run (start.chosen (next .readOnlyRegular) 12)
    let ran' := start.run (start.chosen (next .regular) 12)
    ran.1 = ran'.1 ∧ ran.2.Alike ran'.2 ∧ ran.2.runtime.memory.words ⟨16, 0⟩ = 7 ∧
      ran.2.runtime.published.declaredReadOnly = 1 ∧ ran'.2.runtime.published.declaredReadOnly = 0 := by
  intro next start ran ran'
  have blind : ∀ responses s s', s.Alike s' →
      (next .readOnlyRegular responses s).undeclared = (next .regular responses s').undeclared := by
    intro responses s s' _
    simp only [next]
    rw [← List.getD_map _ _ Action.undeclared, ← List.getD_map _ _ Action.undeclared]
    rfl
  obtain ⟨responses, alike⟩ := declarations_change_statistics_only smallRuntime_new pair blind 12
  exact ⟨responses, alike, by decide +kernel, by decide +kernel, by decide +kernel⟩

end TransactionalMemory
