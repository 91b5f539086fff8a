import TransactionalMemory.Proofs.Reckoning

/-! # Every run of a body is counted once

A block whose body reads and writes runs it again and again.  However the body ends each time, whatever the caller
answers to the conflicts, and whatever other contexts do in between: each run has been counted once when the block
ends, as a commit or under a conflict, and the last one as a commit exactly if the block has ended well.  The body is
not run more often than the settings allow; and a block that gives up is counted once more, as one that has used up
its attempts or as one that its caller has stopped (`block_counts_every_run`).

The invariant of the course of a block says how many runs are counted already and how the current one is reckoned
(`Trying`).
-/

namespace TransactionalMemory

variable {α ε : Type}

/-! ## Sums of aborts -/

namespace Tally

theorem abortSum_eq (t : Tally) : t.abortSum = Conflict.all.foldr (fun c n => t.abortsFor c + n) 0 := by
  obtain ⟨_, _, _, _, ⟨⟨aborts⟩, size⟩, _, _⟩ := t
  match aborts, size with
  | [a, b, c, d, e, f], _ =>
    show 0 + a + b + c + d + e + f = a + (b + (c + (d + (e + (f + 0)))))
    omega

theorem abortSum_of_count {t t' : Tally} {o : Occurrence} (counted : t.count o = .ok t') :
    t'.abortSum = t.abortSum + Conflict.all.countP (fun c => Counter.counts (.aborts c) o) := by
  have gets : ∀ c, t'.abortsFor c = t.abortsFor c + if Counter.counts (.aborts c) o then 1 else 0 :=
    fun c => get_of_count counted (.aborts c)
  simp only [abortSum_eq, gets]
  generalize Conflict.all = causes
  induction causes with
  | nil => rfl
  | cons c rest ih =>
    simp only [List.foldr_cons, ih, List.countP_cons]
    omega

/-- Counters that have counted nothing but aborts, and so many of them. -/
structure OnlyAborts (t : Tally) (n : Nat) (t' : Tally) : Prop where
  commits : t'.commits = t.commits
  aborts : t'.abortSum = t.abortSum + n
  exhausted : t'.exhausted = t.exhausted
  abandoned : t'.abandoned = t.abandoned

theorem OnlyAborts.zero (t : Tally) : t.OnlyAborts 0 t := ⟨rfl, rfl, rfl, rfl⟩

section

variable {t t' t'' : Tally} {n : Nat}

theorem OnlyAborts.count (h : t.OnlyAborts n t') {c : Conflict} (counted : t'.count (.aborted c) = .ok t'') :
    t.OnlyAborts (n + 1) t'' where
  commits := (get_of_count counted .commits).trans h.commits
  aborts := by
    have one : Conflict.all.countP (fun c' => Counter.counts (.aborts c') (.aborted c)) = 1 := by cases c <;> rfl
    rw [abortSum_of_count counted, h.aborts, one, Nat.add_assoc]
  exhausted := (get_of_count counted .exhausted).trans h.exhausted
  abandoned := (get_of_count counted .abandoned).trans h.abandoned

theorem OnlyAborts.committed (h : t.OnlyAborts n t') {mode : Mode} {wroteNothing : Bool}
    (counted : t'.count (.committed mode wroteNothing) = .ok t'') : t''.commits = t.commits + 1 ∧
      t''.abortSum = t.abortSum + n ∧ t''.exhausted = t.exhausted ∧ t''.abandoned = t.abandoned := by
  have none : Conflict.all.countP (fun c => Counter.counts (.aborts c) (.committed mode wroteNothing)) = 0 := rfl
  refine ⟨?_, ?_, (get_of_count counted .exhausted).trans h.exhausted,
    (get_of_count counted .abandoned).trans h.abandoned⟩
  · rw [← h.commits]
    exact get_of_count counted .commits
  · rw [abortSum_of_count counted, none, h.aborts, Nat.add_zero]

theorem OnlyAborts.gaveUp (h : t.OnlyAborts n t') {reason : GiveUpReason}
    (counted : t'.count (.gaveUp reason) = .ok t'') : t''.commits = t.commits ∧ t''.abortSum = t.abortSum + n ∧
      t''.exhausted = t.exhausted + (if reason = .exhausted then 1 else 0) ∧
      t''.abandoned = t.abandoned + (if reason = .abandoned then 1 else 0) := by
  have none : Conflict.all.countP (fun c => Counter.counts (.aborts c) (.gaveUp reason)) = 0 := rfl
  refine ⟨(get_of_count counted .commits).trans h.commits, ?_, ?_, ?_⟩
  · rw [abortSum_of_count counted, none, h.aborts, Nat.add_zero]
  · rw [← h.exhausted]
    exact (get_of_count counted .exhausted).trans (by cases reason <;> rfl)
  · rw [← h.abandoned]
    exact (get_of_count counted .abandoned).trans (by cases reason <;> rfl)

end

end Tally

/-! ## The current attempt of a block -/

/-- The attempt that a block is in: the actions up to its beginning, the counters as they were then, how its body has
    ended, if it has, and the worker. -/
structure Trial (α ε : Type) where
  began : List (Action α ε)
  base : Tally
  ending : Option (Ending α ε)
  worker : Worker

/-- The body of an attempt that began after the actions `began` has ended since, when the engine had made of the
    attempt what the ending says. -/
def Chronicle.Left (t : Chronicle) (owner : OwnerId) (began sofar : List (Action α ε)) (base : Tally)
    (e : Ending α ε) : Prop :=
  ∃ waited rest w, sofar = waited ++ .act owner (.leave e.body) :: rest ∧ began <+: waited ∧
    (t.run waited).system.worker? owner = some w ∧ w.inBody = true ∧ w.context.Met base e.before

/-- A block that was entered by the worker `w₀` and is underway: its attempts before the current one are counted as
    aborts, and the current one is reckoned. -/
structure Trying (t : Chronicle) (owner : OwnerId) (block : Nat) (mode : Mode) (w₀ : Worker)
    (sofar : List (Action α ε)) (response : Response α ε) (runs : Nat) (x : Trial α ε) : Prop where
  here : (t.run sofar).system.worker? owner = some x.worker
  stage : x.worker.Reckoning ⟨block, mode, runs, none⟩ w₀.blocks t.system.runtime.settings.retryBudget x.base
    (t.dialogue owner {} sofar) x.ending
  begun : 0 < runs
  within : ∀ n ∈ t.system.runtime.settings.retryBudget, runs ≤ n
  spent : w₀.context.tally.OnlyAborts (runs - 1) x.base
  attempt : BlockCourse owner block mode t x.began .attempt runs
  since : x.began <+: sofar
  first : ∃ w, (t.run x.began).system.worker? owner = some w ∧ w.context.tally = x.base
  left : ∀ e ∈ x.ending, t.Left owner x.began sofar x.base e
  tells : response.TellsOf x.ending x.base x.worker.context.tally

theorem Chronicle.Left.snoc {t : Chronicle} {owner : OwnerId} {began sofar : List (Action α ε)} {base : Tally}
    {e : Ending α ε} (left : t.Left owner began sofar base e) (a : Action α ε) :
    t.Left owner began (sofar ++ [a]) base e := by
  obtain ⟨waited, rest, w, rfl, since⟩ := left
  exact ⟨waited, rest ++ [a], w, by simp, since⟩

section

variable {t : Chronicle} {owner : OwnerId} {block runs : Nat} {mode : Mode} {w₀ : Worker}
  {sofar : List (Action α ε)} {response : Response α ε} {x : Trial α ε}

namespace Trying

/-- The steps of others leave the block in its attempt. -/
theorem beside (h : Trying t owner block mode w₀ sofar response runs x) {a : Action α ε}
    (other : a.owner? ≠ some owner) : Trying t owner block mode w₀ (sofar ++ [a]) response runs x :=
  { h with
    here := by rw [Chronicle.run_snoc, Chronicle.system_step, System.worker?_step_of_ne other, h.here]
    stage := by
      rw [Chronicle.dialogue_snoc, Chronicle.hear_of_ne _ other]
      exact h.stage
    since := h.since.trans (List.prefix_append _ _)
    left := fun e ended => (h.left e ended).snoc a }

/-- What a step of the block comes to. -/
theorem reckons (h : Trying t owner block mode w₀ sofar response runs x)
    (orderly : (t.run sofar).system.Orderly) {action : WorkerAction α ε} (ofBlock : action.isOfBlock = true) :
    Worker.Reckons ⟨block, mode, runs, none⟩ w₀.blocks t.system.runtime.settings.retryBudget x.base
      (t.dialogue owner {} sofar) x.ending x.worker action (x.worker.step (t.run sofar).system.runtime action) :=
  h.stage.step (orderly.holding owner x.worker h.here) h.begun rfl h.within
    (congrArg Settings.retryBudget (t.akin_run sofar).settings) ofBlock

theorem enter (orderly : t.system.Orderly) (here : t.system.worker? owner = some w₀)
    (some : t.system.runtime.settings.retryBudget ≠ some 0)
    (entered : (t.system.step (.act owner (.enter block mode) : Action α ε)).1 = .attempt) :
    ∃ x : Trial α ε, Trying t owner block mode w₀ [.act owner (.enter block mode)] .attempt 1 x := by
  have there := Chronicle.worker?_step_act (α := α) (ε := ε) here (.enter block mode)
  have course := BlockCourse.enter entered
  rw [Chronicle.response_step_act here] at entered
  obtain ⟨same, stage⟩ := Worker.Reckoning.enter t.system.runtime.settings.retryBudget
    (orderly.holding owner w₀ here) entered
  have heard : t.dialogue owner {} [(.act owner (.enter block mode) : Action α ε)] = .during 1 := by
    rw [Chronicle.dialogue, Chronicle.dialogue, Chronicle.hear_act, Chronicle.response_step_act here, entered]
    rfl
  have budget : ∀ n ∈ t.system.runtime.settings.retryBudget, 1 ≤ n := fun n allowed =>
    Nat.pos_of_ne_zero fun zero => some (zero ▸ allowed)
  exact ⟨⟨_, w₀.context.tally, none, _⟩, there, heard ▸ stage, Nat.one_pos, budget, .zero _, course,
    List.prefix_refl _, ⟨_, there, same⟩, nofun, nofun⟩

theorem act (h : Trying t owner block mode w₀ sofar response runs x)
    (orderly : (t.run sofar).system.Orderly) (run : BlockCourse owner block mode t sofar response runs)
    (going : response.isOver = false) {action : WorkerAction α ε} (ofBlock : action.isOfBlock = true)
    {next : Response α ε} (told : ((t.run sofar).system.step (.act owner action)).1 = next)
    (unended : next.isOver = false) :
    ∃ x', Trying t owner block mode w₀ (sofar ++ [.act owner action]) next (runs + next.isAttempt.toNat) x' := by
  obtain ⟨began, base, before, w⟩ := x
  have reckons := h.reckons orderly ofBlock
  have there := Chronicle.worker?_step_act h.here action
  have heard : t.dialogue owner {} (sofar ++ [.act owner action]) = (t.dialogue owner {} sofar).next action next := by
    rw [Chronicle.dialogue_snoc, Chronicle.hear_act, told]
  have course := run.step action next going ofBlock told
  rw [Chronicle.response_step_act h.here] at told
  rw [← Chronicle.run_snoc] at there
  cases reckons with
  | fault f told' | commits _ told' | givesUp _ told' =>
    rw [← told, told'] at unended
    cases unended
  | goesOn ending plain _ stage ends tells =>
    rw [told] at plain stage tells
    rw [plain]
    refine ⟨⟨began, base, ending, _⟩, there, heard ▸ stage, h.begun, h.within, h.spent, h.attempt,
      h.since.trans (List.prefix_append _ _), h.first, ?_, tells⟩
    cases ends with
    | same => exact fun e ended => (h.left e ended).snoc _
    | now e leaves inside met =>
      rintro e' ⟨⟩
      exact ⟨sofar, [], w, by rw [leaves], h.since, h.here, inside, met⟩
  | retries e ended told' counted left stage =>
    rw [told'] at told stage
    subst told
    refine ⟨⟨sofar ++ [.act owner action], _, none, _⟩, there, heard ▸ stage, Nat.succ_pos runs, left, ?_, course,
      List.prefix_refl _, ⟨_, there, rfl⟩, nofun, nofun⟩
    have spent := h.spent.count counted
    rwa [Nat.sub_add_cancel h.begun] at spent

end Trying

/-- A block was entered by a worker. -/
theorem BlockCourse.worker (run : BlockCourse owner block mode t sofar response runs) :
    ∃ w₀, t.system.worker? owner = some w₀ := by
  induction run with
  | enter entered =>
    cases here : t.system.worker? owner with
    | none =>
      simp only [System.step, System.act, here] at entered
      cases entered
    | some w₀ => exact ⟨w₀, rfl⟩
  | beside _ _ _ _ ih | step _ _ _ _ _ _ ih => exact ih

theorem BlockCourse.trying (run : BlockCourse owner block mode t sofar response runs)
    (orderly : t.OrderlyAlong sofar) (some : t.system.runtime.settings.retryBudget ≠ some 0)
    (here : t.system.worker? owner = .some w₀) (unended : response.isOver = false) :
    ∃ x, Trying t owner block mode w₀ sofar response runs x := by
  induction run with
  | enter entered => exact Trying.enter (orderly [] _ rfl) here some entered
  | beside a run unended other ih =>
    obtain ⟨x, trying⟩ := ih orderly.init unended
    exact ⟨x, trying.beside other⟩
  | step action next run going ofBlock told ih =>
    obtain ⟨x, trying⟩ := ih orderly.init going
    exact trying.act orderly.init.last run going ofBlock told unended

end

/-! ## What a block has counted -/

/-- In a run of any contexts, let an owner run a block whose body only reads and writes, with any steps of others in
between, up to its end.  Then each run of the body has been counted, once, as a commit or under a conflict, and the
body has not run more often than the settings allow.

If the block ends with a value or with a failure of the body, one commit is counted.  If it gives up, no commit is
counted, the report says how often the body has run, and either the block is counted as exhausted: then the body has
run as often as the settings allow, and the caller has answered all conflicts but the last by another run; or it is
counted as abandoned: then the caller has answered all conflicts, and only the last by stopping. -/
theorem block_counts_every_run {settings : Settings} {r : Runtime} (new : Runtime.new? settings = .ok r)
    (m : Memory) (before sofar : List (Action α ε)) (owner : OwnerId) (block : Nat) (mode : Mode)
    (result : BlockResult α ε) (runs : Nat)
    (owners : (before ++ sofar).countP Action.isAnnounce < lockBit) :
    let t := (Chronicle.start r m).run before
    let d := t.dialogue owner {} sofar
    BlockCourse owner block mode t sofar (.ended result) runs →
    ∃ w w', t.system.worker? owner = some w ∧ (t.run sofar).system.worker? owner = some w' ∧
      let x := w.context.tally
      let x' := w'.context.tally
      d.runs = runs ∧ x'.commits + x'.abortSum = x.commits + x.abortSum + runs ∧
      (∀ n, settings.retryBudget = some n → runs ≤ n) ∧
      match result with
      | .validated _ | .cancelled _ =>
        x'.commits = x.commits + 1 ∧ x'.exhausted = x.exhausted ∧ x'.abandoned = x.abandoned
      | .failed report => report = ⟨block, runs⟩ ∧ x'.commits = x.commits ∧
        (x'.exhausted = x.exhausted + 1 ∧ x'.abandoned = x.abandoned ∧ settings.retryBudget = some runs ∧
            d.asked = runs - 1 ∧ d.answers = .replicate (runs - 1) .retry ∨
          x'.exhausted = x.exhausted ∧ x'.abandoned = x.abandoned + 1 ∧
            d.asked = runs ∧ d.answers = .replicate (runs - 1) .retry ++ [.stop]) := by
  intro t d run
  have orderly : t.OrderlyAlong sofar := Chronicle.orderlyAlong_run new m owners
  have kept : t.system.runtime.settings = settings :=
    ((Chronicle.start r m).akin_run before).settings.trans (Runtime.of_new? new).1
  have budget : settings.retryBudget ≠ some 0 :=
    (Runtime.of_new? new).1 ▸ Runtime.retryBudget_ne_zero new
  obtain ⟨w₀, here⟩ := run.worker
  cases run with
  | beside a run unended => cases unended
  | @step sofar response runs action _ run unended ofBlock told =>
    obtain ⟨x, trying⟩ := run.trying orderly.init (kept ▸ budget) here unended
    have reckons := trying.reckons orderly.init.last ofBlock
    have there := Chronicle.worker?_step_act trying.here action
    have heard : d = (t.dialogue owner {} sofar).next action (.ended result) := by
      rw [← told, ← Chronicle.hear_act, ← Chronicle.dialogue_snoc]
    rw [Chronicle.response_step_act trying.here] at told
    rw [← Chronicle.run_snoc] at there
    refine ⟨w₀, _, here, there, ?_⟩
    have within := trying.within
    have spent := trying.spent
    have begun := trying.begun
    rw [kept] at reckons within
    cases reckons with
    | fault f told' => cases told.symm.trans told'
    | goesOn _ _ going =>
      rw [told] at going
      cases going
    | retries _ _ told' => cases told.symm.trans told'
    | commits result' told' succeeds talk mode wroteNothing counted =>
      cases told.symm.trans told'
      rw [told, ← heard] at talk
      obtain ⟨commits, aborts, others⟩ := spent.committed counted
      refine ⟨congrArg Dialogue.runs talk, ?_, within, ?_⟩
      · rw [commits, aborts]
        show _ = w₀.context.tally.commits + w₀.context.tally.abortSum + runs
        omega
      · cases result with
        | validated | cancelled => exact ⟨commits, others⟩
        | failed => cases succeeds
    | givesUp e told' tally aborted reason counted why =>
      cases told.symm.trans told'
      rw [told, ← heard] at why
      obtain ⟨commits, aborts, exhausted, abandoned⟩ := (spent.count aborted).gaveUp counted
      refine ⟨?_, ?_, within, rfl, commits, ?_⟩
      · rcases why with ⟨-, -, talk⟩ | ⟨-, talk⟩ <;> exact congrArg Dialogue.runs talk
      · rw [commits, aborts, Nat.sub_add_cancel begun, Nat.add_assoc]
        rfl
      · rcases why with ⟨rfl, last, talk⟩ | ⟨rfl, talk⟩
        · exact Or.inl ⟨exhausted, abandoned, last, congrArg Dialogue.asked talk, congrArg Dialogue.answers talk⟩
        · exact Or.inr ⟨exhausted, abandoned, congrArg Dialogue.asked talk, congrArg Dialogue.answers talk⟩

/-- The body of a block meets the lock of another context and ends with a value all the same; run again, it ends on a
    conflict that it has not met, and its caller stops the block. -/
theorem block_counts_every_run_of_two :
    let before : List (Action Unit Unit) :=
      [.announce, .announce, .register ⟨1⟩, .register ⟨2⟩, .act ⟨2⟩ (.call (.start 0 .regular)),
       .act ⟨2⟩ (.call (.write ⟨16, 0⟩ (.u64 5)))]
    let sofar : List (Action Unit Unit) :=
      [.act ⟨1⟩ (.enter 1 .regular), .act ⟨1⟩ (.call (.write ⟨16, 0⟩ (.u64 7))), .act ⟨1⟩ .resume,
       .act ⟨1⟩ (.leave (.value ())), .act ⟨2⟩ (.call .commit), .act ⟨1⟩ (.decide .retry),
       .act ⟨1⟩ (.leave (.conflict .writeAfterRead)), .act ⟨1⟩ (.decide .stop), .act ⟨1⟩ .resume]
    let t := (Chronicle.start smallRuntime pair).run before
    BlockCourse ⟨1⟩ 1 .regular t sofar (.ended (.failed ⟨1, 2⟩)) 2 ∧
      t.dialogue ⟨1⟩ {} sofar = ⟨2, 2, [.retry, .stop]⟩ ∧
      ∃ w, (t.run sofar).system.worker? ⟨1⟩ = some w ∧ w.context.tally.commits = 0 ∧ w.context.tally.abortSum = 2 ∧
        w.context.tally.exhausted = 0 ∧ w.context.tally.abandoned = 1 := by
  intro before sofar t
  have entered :
      BlockCourse (α := Unit) (ε := Unit) ⟨1⟩ 1 .regular t [.act ⟨1⟩ (.enter 1 .regular)] .attempt 1 :=
    .enter (by decide +kernel)
  have met := entered.step (.call (.write ⟨16, 0⟩ (.u64 7))) (.standing (.abort ⟨1⟩ 1 .lockedByOther)) rfl rfl
    (by decide +kernel)
  have aborted := met.step .resume (.replied (.aborted .lockedByOther)) rfl rfl (by decide +kernel)
  have asked := aborted.step (.leave (.value ())) (.question .invalidCommit) rfl rfl (by decide +kernel)
  have freed := asked.beside (.act ⟨2⟩ (.call .commit)) rfl (by decide)
  have retried := freed.step (.decide .retry) .attempt rfl rfl (by decide +kernel)
  have again := retried.step (.leave (.conflict .writeAfterRead)) (.question .writeAfterRead) rfl rfl
    (by decide +kernel)
  have stopped := again.step (.decide .stop) (.standing (.gaveUp .abandoned ⟨1, 2⟩ .writeAfterRead)) rfl rfl
    (by decide +kernel)
  have ended := stopped.step .resume (.ended (.failed ⟨1, 2⟩)) rfl rfl (by decide +kernel)
  obtain ⟨w, w', here, there, runs, total, -, -, commits, counted⟩ := block_counts_every_run smallRuntime_new pair
    before sofar ⟨1⟩ 1 .regular (.failed ⟨1, 2⟩) 2 (by decide) ended
  have empty : (t.system.worker? ⟨1⟩).map (·.context.tally) = some {} := by decide +kernel
  rw [show t.system.worker? ⟨1⟩ = some w from here] at empty
  have none : w.context.tally = {} := Option.some.inj empty
  rw [none] at total commits counted
  have talk : t.dialogue ⟨1⟩ {} sofar = ⟨2, 2, [.retry, .stop]⟩ := by decide +kernel
  rcases counted with ⟨-, -, -, asked, -⟩ | ⟨exhausted, abandoned, -⟩
  · rw [show (Chronicle.dialogue _ _ _ sofar).asked = 2 from congrArg Dialogue.asked talk] at asked
    cases asked
  · rw [commits] at total
    exact ⟨ended, talk, w', there, commits, (Nat.zero_add _).symm.trans total, exhausted, abandoned⟩

end TransactionalMemory
