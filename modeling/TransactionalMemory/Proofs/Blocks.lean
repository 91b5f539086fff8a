import TransactionalMemory.Proofs.Stages

/-! # A block applies once or not at all

The body of an atomic block reads and writes through the context and nothing else; it may go on after an
abort, and it may return a value, a failure or any conflict.  However often it is run again, whatever the
caller answers to the conflicts, and whatever other contexts do in between: a block that ends well has
committed exactly one attempt, its last, and that attempt is all that it has done to memory; a block that
gives up has done nothing to it (`block_applies_once_or_never`).

The course of a block is an inductive (`BlockCourse`), in which each step of the owner leads from one stage of
the block to the next (`Underway.act`) and the steps of others leave its stage alone (`Underway.beside`).
-/

namespace TransactionalMemory

variable {α ε : Type}

/-! ## The course of a block -/

/-- A block of an owner as far as it has come, with the last response to it and the number of times that its
    body has begun: the step that enters it, and then, until it is over, its own further steps and any
    steps of others. -/
inductive BlockCourse (owner : OwnerId) (block : Nat) (mode : Mode) (t : Chronicle) :
    List (Action α ε) → Response α ε → Nat → Prop where
  | enter (entered : (t.system.step (.act owner (.enter block mode) : Action α ε)).1 = .attempt) :
      BlockCourse owner block mode t [.act owner (.enter block mode)] .attempt 1
  | beside {sofar : List (Action α ε)} {response : Response α ε} {runs : Nat} (a : Action α ε)
      (run : BlockCourse owner block mode t sofar response runs) (unended : response.isOver = false)
      (other : a.owner? ≠ some owner) : BlockCourse owner block mode t (sofar ++ [a]) response runs
  | step {sofar : List (Action α ε)} {response : Response α ε} {runs : Nat}
      (action : WorkerAction α ε) (next : Response α ε)
      (run : BlockCourse owner block mode t sofar response runs)
      (unended : response.isOver = false) (ofBlock : action.isOfBlock = true)
      (told : ((t.run sofar).system.step (.act owner action)).1 = next) :
      BlockCourse owner block mode t (sofar ++ [.act owner action]) next (runs + next.isAttempt.toNat)

/-- The commits of an owner, those without writes included. -/
def Chronicle.commitsOf (t : Chronicle) (owner : OwnerId) : List Commit :=
  (t.commits ++ t.readOnly).filter (·.context.owner = owner)

/-- The last of a block's actions, after those in which it waited, is the end of a body with the given
    result.  That step has committed the block's last attempt, which has executed its accesses on memory;
    no other attempt of the block has committed, and no other step of its owner has stored anything. -/
structure AppliedOnce (t : Chronicle) (owner : OwnerId) (runs : Nat) (body : BodyResult α ε)
    (waited : List (Action α ε)) (commit : Commit) : Prop where
  attempt : commit.attempt = (t.run waited).attempts owner
  last : commit.attempt.number = (t.attempts owner).number + runs
  once : ((t.run (waited ++ [.act owner (.leave body)])).commitsOf owner).Perm (commit :: t.commitsOf owner)
  words : (t.run (waited ++ [.act owner (.leave body)])).system.runtime.memory.words =
    execute commit.attempt.accesses (t.run waited).system.runtime.memory.words
  shape : (t.run waited).system.runtime.memory.SameShape
    (t.run (waited ++ [.act owner (.leave body)])).system.runtime.memory
  nothingBefore : t.StoresNothing owner waited

/-! ## What the record of a step says -/

theorem WorkerAction.number_of_adds {action : WorkerAction α ε} {response : Response α ε} {d d' : Attempt}
    (ofBlock : action.isOfBlock = true) (adds : (action.note response).Adds d d') :
    d'.number = d.number + response.isAttempt.toNat := by
  unfold note at adds
  split at adds
  · cases ofBlock
  · cases adds
    rfl
  · exact adds.1
  · next other _ _ =>
    cases response with
    | attempt => exact absurd rfl other
    | _ => exact adds.1

namespace Chronicle

variable {t : Chronicle} {owner : OwnerId} {w : Worker}

theorem attempts_step_of_ne {a : Action α ε} (other : a.owner? ≠ some owner) :
    (t.step a).attempts owner = t.attempts owner := by
  cases a with
  | act o action =>
    have differs : owner ≠ o := fun same => other (congrArg some same.symm)
    cases here : t.system.worker? o with
    | none => simp only [step, here]
    | some w =>
      rw [step_act here]
      exact if_neg differs
  | _ => rfl

/-- The attempts of an owner go on as its client learns. -/
theorem adds_step_act (here : t.system.worker? owner = some w) (action : WorkerAction α ε) :
    (action.note (w.step t.system.runtime action).1).Adds (t.attempts owner)
      ((t.step (.act owner action)).attempts owner) := by
  rw [step_act here]
  dsimp only
  rw [if_pos rfl]
  exact (t.seat owner w).adds_attemptAfter action _

/-- A step of a worker adds one commit to the record if it has committed the attempt, and none else. -/
theorem commits_step_act (here : t.system.worker? owner = some w) (action : WorkerAction α ε) :
    let out := w.step t.system.runtime action
    let t' := t.step (.act owner action)
    let commit : Commit := ⟨out.2.1.clock.now, w.context, t.attempts owner⟩
    ¬ (w.context.phase = .active ∧ out.2.2.context.phase = .committed) ∧
        t'.commits = t.commits ∧ t'.readOnly = t.readOnly ∨
      (w.context.phase = .active ∧ out.2.2.context.phase = .committed) ∧
        (t'.commits = t.commits ++ [commit] ∧ t'.readOnly = t.readOnly ∨
          t'.commits = t.commits ∧ t'.readOnly = t.readOnly ++ [commit]) := by
  intro out t' commit
  simp only [t', step_act here]
  by_cases done : w.context.phase = .active ∧ out.2.2.context.phase = .committed
  · refine Or.inr ⟨done, ?_⟩
    cases wrote : w.context.writes.isEmpty with
    | true => exact Or.inr ⟨if_neg fun both => both.2 wrote, if_pos ⟨done, wrote⟩⟩
    | false =>
      exact Or.inl ⟨if_pos ⟨done, by simp [seat, wrote]⟩,
        if_neg fun both => by simp [seat, wrote] at both⟩
  · exact Or.inl ⟨done, if_neg fun both => done both.1, if_neg fun both => done both.1⟩

theorem commitsOf_step_of_ne (orderly : t.system.Orderly) {a : Action α ε} (other : a.owner? ≠ some owner) :
    (t.step a).commitsOf owner = t.commitsOf owner := by
  cases a with
  | act o action =>
    cases here : t.system.worker? o with
    | none => simp only [step, here]
    | some w =>
      have differs : w.context.owner ≠ owner := by
        rw [orderly.owners o w here]
        exact fun same => other (congrArg some same)
      rcases commits_step_act here action with ⟨-, commits, readOnly⟩ | ⟨-, ⟨commits, readOnly⟩ |
        ⟨commits, readOnly⟩⟩
      all_goals simp [commitsOf, commits, readOnly, differs]
  | _ => rfl

theorem commitsOf_step_act_of_uncommitted (here : t.system.worker? owner = some w)
    {action : WorkerAction α ε}
    (uncommitted : (w.step t.system.runtime action).2.2.context.phase ≠ .committed) :
    (t.step (.act owner action)).commitsOf owner = t.commitsOf owner := by
  rcases commits_step_act here action with ⟨-, commits, readOnly⟩ | ⟨⟨-, committed⟩, -⟩
  · rw [commitsOf, commits, readOnly, commitsOf]
  · exact absurd committed uncommitted

theorem commitsOf_step_act_of_committed (orderly : t.system.Orderly)
    (here : t.system.worker? owner = some w) {action : WorkerAction α ε}
    (active : w.context.phase = .active)
    (committed : (w.step t.system.runtime action).2.2.context.phase = .committed) :
    ∃ commit : Commit, commit.attempt = t.attempts owner ∧
      ((t.step (.act owner action)).commitsOf owner).Perm (commit :: t.commitsOf owner) := by
  have own : w.context.owner = owner := orderly.owners owner w here
  refine ⟨⟨(w.step t.system.runtime action).2.1.clock.now, w.context, t.attempts owner⟩, rfl, ?_⟩
  rcases commits_step_act here action with ⟨undone, -⟩ | ⟨-, ⟨commits, readOnly⟩ | ⟨commits, readOnly⟩⟩
  · exact absurd ⟨active, committed⟩ undone
  · simp [commitsOf, commits, readOnly, own]
  · rw [commitsOf, commits, readOnly, ← List.append_assoc, List.filter_append,
      List.filter_cons_of_pos (by simp [own])]
    exact List.perm_append_singleton _ _

end Chronicle

/-! ## While a block is underway -/

/-- A block of which no attempt has committed so far, and which has begun its body so many times. -/
structure Underway (t : Chronicle) (owner : OwnerId) (block : Nat) (mode : Mode) (sofar : List (Action α ε))
    (runs : Nat) : Prop where
  stage : ∃ w outer, (t.run sofar).system.worker? owner = some w ∧
    w.Stage block mode outer runs ((t.run sofar).attempts owner).accesses
  number : ((t.run sofar).attempts owner).number = (t.attempts owner).number + runs
  commits : (t.run sofar).commitsOf owner = t.commitsOf owner
  nothing : t.StoresNothing owner sofar

section

variable {t : Chronicle} {owner : OwnerId} {block runs : Nat} {mode : Mode} {sofar : List (Action α ε)}
  {response : Response α ε}

/-- A step of the owner that leads to a stage of the block stores nothing and commits nothing. -/
theorem Underway.of_stage (commits : (t.run sofar).commitsOf owner = t.commitsOf owner)
    (nothing : t.StoresNothing owner sofar) (orderly : (t.run sofar).system.Orderly) {w : Worker}
    (here : (t.run sofar).system.worker? owner = some w) {action : WorkerAction α ε} {outer : List Block}
    (unended : (w.step (t.run sofar).system.runtime action).1.isOver = false)
    (number : ((t.run (sofar ++ [.act owner action])).attempts owner).number =
      (t.attempts owner).number + runs)
    (stage : (w.step (t.run sofar).system.runtime action).2.2.Stage block mode outer runs
      ((t.run (sofar ++ [.act owner action])).attempts owner).accesses) :
    Underway t owner block mode (sofar ++ [.act owner action]) runs := by
  -- A response that does not end the block is no fault, so no commit has stopped in the middle.
  have clean : ∀ f, (w.step (t.run sofar).system.runtime action).1 ≠ .faulted f := fun f faulted => by
    rw [faulted] at unended
    cases unended
  have deed := Worker.deed_step (orderly.holding owner w here) action
  have still := deed.memory_of_uncommitted (Or.inl stage.uncommitted) clean
  refine ⟨⟨_, outer, ?_, stage⟩, number, ?_, nothing.snoc fun _ => ?_⟩
  · rw [Chronicle.run_snoc, Chronicle.worker?_step_act here]
  · rw [Chronicle.run_snoc, Chronicle.commitsOf_step_act_of_uncommitted here stage.uncommitted, commits]
  · rw [Chronicle.run_snoc, Chronicle.runtime_step_act here, still]

/-- The steps of others leave the block at its stage. -/
theorem Underway.beside (u : Underway t owner block mode sofar runs)
    (orderly : (t.run sofar).system.Orderly) {a : Action α ε} (other : a.owner? ≠ some owner) :
    Underway t owner block mode (sofar ++ [a]) runs := by
  obtain ⟨⟨w, outer, here, stage⟩, number, commits, nothing⟩ := u
  have attempts := Chronicle.attempts_step_of_ne (t := t.run sofar) other
  refine ⟨⟨w, outer, ?_, ?_⟩, ?_, ?_, nothing.snoc fun own => absurd own other⟩
  · rw [Chronicle.run_snoc, Chronicle.system_step, System.worker?_step_of_ne other, here]
  · rw [Chronicle.run_snoc, attempts]
    exact stage
  · rw [Chronicle.run_snoc, attempts, number]
  · rw [Chronicle.run_snoc, Chronicle.commitsOf_step_of_ne orderly other, commits]

/-- What a step of the block comes to. -/
theorem Underway.onward (u : Underway t owner block mode sofar runs)
    (orderly : (t.run sofar).system.Orderly) {action : WorkerAction α ε}
    (ofBlock : action.isOfBlock = true) : ∃ w outer, (t.run sofar).system.worker? owner = some w ∧
      ((t.run sofar).system.step (.act owner action)).1 = (w.step (t.run sofar).system.runtime action).1 ∧
      Worker.Onward block mode outer runs ((t.run sofar).attempts owner) w (t.run sofar).system.runtime action
        (w.step (t.run sofar).system.runtime action) := by
  obtain ⟨⟨w, outer, here, stage⟩, -⟩ := u
  exact ⟨w, outer, here, Chronicle.response_step_act here action,
    stage.step (orderly.holding owner w here) ofBlock⟩

theorem Underway.act (u : Underway t owner block mode sofar runs)
    (orderly : (t.run sofar).system.Orderly) {action : WorkerAction α ε}
    (ofBlock : action.isOfBlock = true) {next : Response α ε}
    (told : ((t.run sofar).system.step (.act owner action)).1 = next) (unended : next.isOver = false) :
    Underway t owner block mode (sofar ++ [.act owner action]) (runs + next.isAttempt.toNat) := by
  obtain ⟨w, outer, here, same, onward⟩ := u.onward orderly ofBlock
  rw [same] at told
  subst told
  have adds := Chronicle.adds_step_act here action
  rw [← Chronicle.run_snoc] at adds
  cases onward with
  | goesOn _ stage =>
    refine .of_stage u.commits u.nothing orderly here unended ?_ (stage _ adds)
    rw [WorkerAction.number_of_adds ofBlock adds, u.number, Nat.add_assoc]
  | fault f told | commits _ _ _ _ told | givesUp told =>
    rw [told] at unended
    cases unended

theorem Underway.enter (orderly : t.system.Orderly)
    (entered : (t.system.step (.act owner (.enter block mode) : Action α ε)).1 = .attempt) :
    Underway (α := α) (ε := ε) t owner block mode [.act owner (.enter block mode)] 1 := by
  cases here : t.system.worker? owner with
  | none =>
    simp only [System.step, System.act, here] at entered
    cases entered
  | some w =>
    rw [Chronicle.response_step_act here] at entered
    have adds := Chronicle.adds_step_act (α := α) (ε := ε) here (.enter block mode)
    rw [entered] at adds
    have begun : (t.step (.act owner (.enter block mode) : Action α ε)).attempts owner =
      { number := (t.attempts owner).number + 1 } := adds
    have stage := Worker.Stage.enter (orderly.holding owner w here) entered
    have fresh : Attempt.accesses (Chronicle.attempts _ owner) = [] := congrArg Attempt.accesses begun
    rw [← fresh] at stage
    show Underway t owner block mode ([] ++ [_]) 1
    refine .of_stage rfl .nil orderly here ?_ (congrArg Attempt.number begun) stage
    rw [Chronicle.run_nil, entered]
    rfl

theorem BlockCourse.underway (run : BlockCourse owner block mode t sofar response runs)
    (orderly : t.OrderlyAlong sofar) (unended : response.isOver = false) :
    Underway t owner block mode sofar runs := by
  induction run with
  | enter entered => exact .enter (orderly [] _ rfl) entered
  | beside a run unended other ih => exact (ih orderly.init unended).beside orderly.init.last other
  | step action next run going ofBlock told ih =>
    exact (ih orderly.init going).act orderly.init.last ofBlock told unended

end

/-! ## How a block ends -/

/-- An owner whose context is not active holds no slot. -/
theorem System.Orderly.holds_nothing {s : System} (h : s.Orderly) {owner : OwnerId} {w : Worker}
    (here : s.worker? owner = some w) (inactive : w.context.phase ≠ .active) (slot : Nat) :
    s.runtime.table.word slot ≠ .held owner := fun word =>
  inactive (h.active_of_owns here ((h.word_iff here slot).mp word))

/-- The commit that ends a block well. -/
theorem Underway.applied {t : Chronicle} {owner : OwnerId} {block runs : Nat} {mode : Mode}
    {sofar : List (Action α ε)} (u : Underway t owner block mode sofar runs)
    (orderly : (t.run sofar).system.Orderly) {w : Worker}
    (here : (t.run sofar).system.worker? owner = some w) {body : BodyResult α ε}
    (committed : Scope.Committed (w.scope (t.run sofar).system.runtime)
      (Worker.landing (w.step (t.run sofar).system.runtime (.leave body))))
    (mirrors : w.context.writes.Mirrors ((t.run sofar).attempts owner).accesses) :
    ∃ commit, AppliedOnce t owner runs body sofar commit := by
  have runtime := Chronicle.runtime_step_act here (.leave body)
  obtain ⟨commit, attempt, once⟩ :=
    Chronicle.commitsOf_step_act_of_committed orderly here committed.active committed.phase
  rw [← Chronicle.run_snoc, u.commits] at once
  refine ⟨commit, attempt, attempt ▸ u.number, once, ?_, ?_, u.nothing⟩
  · rw [Chronicle.run_snoc, runtime, attempt]
    exact committed.words.trans (mirrors _)
  · rw [Chronicle.run_snoc, runtime]
    exact committed.shape

/-- In a run of any contexts, let an owner run a block whose body only reads and writes, with any steps of
    others in between, up to its end.  Then the owner holds no slot.

If the block ends with a value or with a failure of the body, the last step of the block is the end of a
body with this result, and it has committed the block's last attempt, and no other; the only thing that
the block has done to memory is to execute the accesses of this attempt, all in that one step.  If the
block has given up, it reports how often its body has run, no attempt of it has committed, and it has done
nothing to memory. -/
theorem block_applies_once_or_never {settings : Settings} {r : Runtime} (new : Runtime.new? settings = .ok r)
    (m : Memory) (before sofar : List (Action α ε)) (owner : OwnerId) (block : Nat) (mode : Mode)
    (result : BlockResult α ε) (runs : Nat)
    (owners : (before ++ sofar).countP Action.isAnnounce < lockBit) :
    let t := (Chronicle.start r m).run before
    let t' := t.run sofar
    BlockCourse owner block mode t sofar (.ended result) runs →
    (∀ slot, t'.system.runtime.table.word slot ≠ .held owner) ∧
    match result with
    | .validated a => ∃ waited commit, sofar = waited ++ [.act owner (.leave (.value a))] ∧
        AppliedOnce t owner runs (.value a : BodyResult α ε) waited commit
    | .cancelled e => ∃ waited commit, sofar = waited ++ [.act owner (.leave (.failure e))] ∧
        AppliedOnce t owner runs (.failure e : BodyResult α ε) waited commit
    | .failed report => report = ⟨block, runs⟩ ∧ t'.commitsOf owner = t.commitsOf owner ∧
        t.StoresNothing owner sofar := by
  intro t t' run
  have orderly : t.OrderlyAlong sofar := Chronicle.orderlyAlong_run new m owners
  have last : t'.system.Orderly := orderly.last
  cases run with
  | beside a run unended => cases unended
  | @step sofar response runs action _ run unended ofBlock told =>
    have u := run.underway orderly.init unended
    have start := orderly.init.last
    obtain ⟨w, outer, here, same, onward⟩ := u.onward start ofBlock
    rw [same] at told
    have ran : t' = (t.run sofar).step (.act owner action) := Chronicle.run_snoc t sofar _
    have there := Chronicle.worker?_step_act here action
    rw [← ran] at there
    -- The last response tells which of the ends this is.
    cases onward with
    | fault f told' => cases told.symm.trans told'
    | goesOn going =>
      rw [told] at going
      cases going
    | commits body result' leaves returned told' committed mirrors =>
      cases told.symm.trans told'
      subst leaves
      obtain ⟨commit, applied⟩ := u.applied start here committed mirrors
      refine ⟨last.holds_nothing there (committed.phase.trans_ne Phase.noConfusion), ?_⟩
      cases body with
      | value a =>
        cases returned
        exact ⟨sofar, commit, rfl, applied⟩
      | failure e =>
        cases returned
        exact ⟨sofar, commit, rfl, applied⟩
      | conflict c => cases returned
    | givesUp told' aborted memory =>
      cases told.symm.trans told'
      refine ⟨last.holds_nothing there (aborted.trans_ne Phase.noConfusion), rfl, ?_,
        u.nothing.snoc fun _ => ?_⟩
      · rw [ran, Chronicle.commitsOf_step_act_of_uncommitted here (aborted.trans_ne Phase.noConfusion),
          u.commits]
      · rw [Chronicle.run_snoc, Chronicle.runtime_step_act here, memory]

/-- A block meets the lock of another context, is told to run again after the other has committed, and then
    commits its second attempt. -/
theorem block_applies_once_or_never_of_two :
    let before : List (Action Unit Unit) :=
      [.announce, .announce, .register ⟨1⟩, .register ⟨2⟩, .act ⟨2⟩ (.call (.start 0 .regular)),
       .act ⟨2⟩ (.call (.write ⟨16, 0⟩ (.u64 5)))]
    let waited : List (Action Unit Unit) :=
      [.act ⟨1⟩ (.enter 1 .regular), .act ⟨1⟩ (.call (.write ⟨16, 0⟩ (.u64 7))), .act ⟨1⟩ .resume,
       .act ⟨1⟩ (.leave (.conflict .lockedByOther)), .act ⟨2⟩ (.call .commit), .act ⟨1⟩ (.decide .retry),
       .act ⟨1⟩ (.call (.write ⟨16, 0⟩ (.u64 7)))]
    let t := (Chronicle.start smallRuntime pair).run before
    let t' := t.run (waited ++ [.act ⟨1⟩ (.leave (.value ()))])
    BlockCourse ⟨1⟩ 1 .regular t (waited ++ [.act ⟨1⟩ (.leave (.value ()))]) (.ended (.validated ())) 2 ∧
      (∃ commit, AppliedOnce t ⟨1⟩ 2 (.value () : BodyResult Unit Unit) waited commit) ∧
      t'.system.runtime.memory.words ⟨16, 0⟩ = 7 ∧ ∀ slot, t'.system.runtime.table.word slot ≠ .held ⟨1⟩ := by
  intro before waited t t'
  have entered :
      BlockCourse (α := Unit) (ε := Unit) ⟨1⟩ 1 .regular t [.act ⟨1⟩ (.enter 1 .regular)] .attempt 1 :=
    .enter (by decide +kernel)
  have met := entered.step (.call (.write ⟨16, 0⟩ (.u64 7))) (.standing (.abort ⟨1⟩ 1 .lockedByOther)) rfl rfl
    (by decide +kernel)
  have aborted := met.step .resume (.replied (.aborted .lockedByOther)) rfl rfl (by decide +kernel)
  have asked := aborted.step (.leave (.conflict .lockedByOther)) (.question .lockedByOther) rfl rfl
    (by decide +kernel)
  have freed := asked.beside (.act ⟨2⟩ (.call .commit)) rfl (by decide)
  have retried := freed.step (.decide .retry) .attempt rfl rfl (by decide +kernel)
  have written := retried.step (.call (.write ⟨16, 0⟩ (.u64 7))) (.replied .done) rfl rfl (by decide +kernel)
  have ended := written.step (.leave (.value ())) (.ended (.validated ())) rfl rfl (by decide +kernel)
  obtain ⟨free, sofar, commit, split, applied⟩ := block_applies_once_or_never smallRuntime_new pair before
    (waited ++ [.act ⟨1⟩ (.leave (.value ()))]) ⟨1⟩ 1 .regular (.validated ()) 2 (by decide) ended
  rw [← (List.append_inj' split rfl).1] at applied
  refine ⟨ended, ⟨commit, applied⟩, by decide +kernel, ?_⟩
  simp only [t', t]
  exact free

end TransactionalMemory
