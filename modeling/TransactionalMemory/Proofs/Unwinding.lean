import TransactionalMemory.Proofs.Clients
import TransactionalMemory.Proofs.Counters
import TransactionalMemory.Proofs.PartialCommits

/-! # What a block leaves behind that ends in a fault

A fault may leave a block from its body, from the caller who is asked about a conflict, or from a step that the block
itself makes: it ends an attempt, begins the next one, or counts that it gives up.  A fault of the body rolls the
attempt back, and when the caller is asked it is rolled back already.  A fault of the block does not: an
attempt that was active stays so, with its writes and its slots, until the context is used again.  That happens where
the commit of the attempt meets a fault, and where its abort meets a full counter
(`faulted_block_released_unless_active`); the rollback that the body's faults have is missing there
(`faulted_commit_of_block_keeps_slot`).

While a block waits for its caller, or is about to give up, its attempt has ended already.  This is an invariant of
the worker (`Worker.Composed`), kept by every step (`Worker.composed_step`).
-/

namespace TransactionalMemory

variable {α ε : Type}

/-- The context of an owner is not active and has no writes, and no slot is held for it. -/
structure System.Released (s : System) (owner : OwnerId) (w : Worker) : Prop where
  inactive : w.context.phase ≠ .active
  writes : w.context.writes = {}
  free : ∀ slot, s.runtime.table.word slot ≠ .held owner

/-- Only an active attempt keeps anything. -/
theorem System.Orderly.released {s : System} (h : s.Orderly) {owner : OwnerId} {w : Worker}
    (here : s.worker? owner = some w) (inactive : w.context.phase ≠ .active) : s.Released owner w where
  inactive := inactive
  writes := (h.holding owner w here).idle inactive
  free slot word := inactive (h.active_of_owns here ((h.word_iff here slot).mp word))

theorem Pending.call_of_client {rest : Pending} (client : rest.isOfBlock = false) : rest.isGiveUp = false := by
  cases rest with
  | giveUp => cases client
  | _ => rfl

/-- The attempt is active as before, with the same writes and the same slots. -/
structure Scope.Stays (s s' : Scope) : Prop where
  phase : s'.context.phase = s.context.phase
  writes : s'.context.writes = s.context.writes
  table : s'.runtime.table = s.runtime.table

namespace Worker

variable {w : Worker} {r : Runtime} {p : Progress × Scope} {s : Scope}

/-! ## Blocks whose attempts have ended -/

/-- The innermost block waits for its caller's answer, or is about to give up. -/
def hasLost (w : Worker) : Bool := w.asking?.isSome || w.pending.any Pending.isGiveUp

/-- Only the innermost block waits for an answer, and its attempt has ended then. -/
structure Composed (w : Worker) : Prop where
  outer : ∀ b ∈ w.blocks.tail, b.question = none
  lost : w.hasLost = true → w.context.phase ≠ .active

theorem asking?_eq_none (unasked : ∀ b ∈ w.blocks, b.question = none) : w.asking? = none := by
  unfold asking?
  cases blocks : w.blocks with
  | nil => rfl
  | cons b outer => simp [unasked b (by simp [blocks])]

theorem Composed.unasked_of_idle (composed : w.Composed) (idle : w.isBusy = false) :
    ∀ b ∈ w.blocks, b.question = none := by
  have outer := composed.outer
  have unasked : w.asking?.isSome = false := (Bool.or_eq_false_iff.mp idle).2
  unfold asking? at unasked
  cases blocks : w.blocks with
  | nil => nofun
  | cons b rest =>
    rw [blocks] at outer unasked
    have none : b.question = none := by simpa using unasked
    exact List.forall_mem_cons.mpr ⟨none, outer⟩

theorem idle_of_inBody (inside : w.inBody = true) : w.isBusy = false := by
  simp only [inBody, Bool.and_eq_true, Bool.not_eq_true'] at inside
  exact inside.1

namespace Composed

theorem of_free (unasked : ∀ b ∈ w.blocks, b.question = none) (free : w.pending = none) : w.Composed where
  outer b member := unasked b (List.mem_of_mem_tail member)
  lost lost := by
    rw [hasLost, asking?_eq_none unasked, free] at lost
    cases lost

theorem close (composed : w.Composed) (response : Response α ε) (s : Scope) : (w.close response s).2.2.Composed :=
  .of_free composed.outer rfl

theorem afterConflict (composed : w.Composed) (inactive : s.context.phase ≠ .active) (c : Conflict) :
    (w.afterConflict (α := α) (ε := ε) c s).2.2.Composed := by
  have outer := composed.outer
  unfold Worker.afterConflict
  split
  · next none => exact .of_free (by simp [Worker.settle, none]) rfl
  · next b rest blocks =>
    rw [blocks] at outer
    split
    · exact ⟨by simpa only [Worker.giveUp, Worker.stand, blocks] using outer, fun _ => inactive⟩
    · exact ⟨outer, fun _ => inactive⟩

/-- A segment of a call leaves a worker composed, if it does not wake up a block that has lost its attempt. -/
theorem advance (composed : w.Composed) (asleep : w.asking?.isSome = true → p.2.context.phase ≠ .active)
    (lost : p.1 = .commitLost → p.2.context.phase ≠ .active)
    (call : ∀ e rest, p.1 = .standing e rest → rest.isGiveUp = false) (ofBlock : Bool) :
    (w.advance (α := α) (ε := ε) ofBlock p).2.2.Composed := by
  obtain ⟨a, s⟩ := p
  have settle : ∀ response : Response α ε, (w.settle response s).2.2.Composed := fun response =>
    ⟨composed.outer, fun lost => asleep ((Bool.or_false _).symm.trans lost)⟩
  cases a with
  | answered a => exact settle _
  | faulted f =>
    cases ofBlock with
    | true => exact composed.close _ s
    | false => exact settle _
  | standing e rest =>
    refine ⟨composed.outer, fun lost => asleep ?_⟩
    have lost : (w.asking?.isSome || rest.isGiveUp) = true := lost
    rwa [call e rest rfl, Bool.or_false] at lost
  | commitLost => exact composed.afterConflict (lost rfl) _

theorem leaveBy (h : (w.scope r).Holding) (composed : w.Composed) (unasked : ∀ b ∈ w.blocks, b.question = none)
    (result : BlockResult α ε) : (w.leaveBy result r).2.2.Composed := by
  have segment := Scope.Segment.commit h .block
  have asleep : w.asking?.isSome = true → ((w.scope r).commit .block).2.context.phase ≠ .active := by
    rw [asking?_eq_none unasked]
    nofun
  have before : ((w.scope r).commit .block).2.context.phase = .active → w.context.phase = .active := by
    intro active
    by_contra inactive
    rw [Scope.commit_snd_of_inactive inactive] at active
    exact inactive active
  unfold Worker.leaveBy
  split
  · exact composed.close _ _
  · next a s failed committed =>
    -- A commit of an active attempt has only success to answer at once.
    refine composed.afterConflict (fun active => ?_) _
    rw [committed] at before
    have answered : a = .verdict true := Scope.answered_commit (before active) (congrArg Prod.fst committed)
    subst answered
    exact absurd rfl failed
  · refine composed.advance asleep (fun lost active => ?_) (fun e rest stands => (segment.standing e rest stands).2.2) _
    have steady := segment.steady (before active)
    rw [lost] at steady
    cases steady

theorem leaveOnConflict (h : (w.scope r).Holding) (composed : w.Composed) (c : Conflict) :
    (w.leaveOnConflict (α := α) (ε := ε) c r).2.2.Composed := by
  rcases leaveOnConflict_cases (α := α) (ε := ε) h c with ⟨f, faulted⟩ | ⟨s, left, ends⟩
  · rw [faulted]
    exact composed.close _ _
  · rw [left]
    refine composed.afterConflict ?_ c
    rcases ends with ⟨-, -, aborted⟩ | ⟨inactive, same⟩
    · exact aborted.trans_ne Phase.noConfusion
    · exact same.phase.trans_ne inactive

theorem resume (h : (w.scope r).Holding) (composed : w.Composed) {rest : Pending} (waiting : w.pending = some rest) :
    (w.resume (α := α) (ε := ε) rest r).2.2.Composed := by
  have asleep : w.asking?.isSome = true → ((w.scope r).resume rest).2.context.phase ≠ .active := fun asks active =>
    composed.lost (Bool.or_eq_true_iff.mpr (Or.inl asks)) (Scope.active_of_resume active)
  cases rest with
  | giveUp reason report =>
    unfold Worker.resume
    rw [Scope.resume]
    rcases (w.scope r).counted_finishGiveUp reason with ⟨f, faulted⟩ | ⟨s, ended, -⟩
    · rw [faulted]
      exact composed.close (.faulted f) (w.scope r)
    · rw [ended]
      exact composed.close (.ended (.failed report)) s
  | failCommit site =>
    rw [resume_eq_advance rfl]
    rw [Scope.resume, Scope.abort] at asleep ⊢
    exact composed.advance asleep (fun lost => by cases lost) (fun e rest stands => by cases stands; rfl) _
  | extend candidate next =>
    have client : ((w.scope r).resume (.extend candidate next)).1.isOfBlock = false := Scope.isOfBlock_resume rfl
    rw [resume_eq_advance rfl]
    refine composed.advance asleep (fun lost => ?_) (fun e rest stands => ?_) _
    · rw [lost] at client
      cases client
    · rw [stands] at client
      exact Pending.call_of_client (Bool.or_eq_false_iff.mp client).2
  | abort c site =>
    rw [resume_eq_advance rfl]
    rcases h.finishAbort c site with ⟨f, faulted⟩ | ⟨s, ended, -, -, aborts⟩
    · rw [Scope.resume, faulted] at asleep ⊢
      exact composed.advance asleep (fun lost => by cases lost) (fun e rest stands => by cases stands) _
    · refine composed.advance asleep (fun _ active => ?_) (fun e rest stands => ?_) _
      · have aborted := aborts (Scope.active_of_resume active)
        rw [Scope.resume, ended] at active
        cases aborted.symm.trans active
      · rw [Scope.resume, ended] at stands
        cases site <;> cases stands

end Composed

theorem composed_step (h : (w.scope r).Holding) (composed : w.Composed) (action : WorkerAction α ε) :
    (w.step r action).2.2.Composed := by
  have dispatch := dispatch_step w r action
  generalize w.step r action = out at dispatch ⊢
  cases dispatch with
  | refuse => exact composed
  | call idle request =>
    have client := (w.scope r).isOfBlock_perform request
    refine composed.advance ?_ (fun lost => ?_) (fun e rest stands => ?_) false
    · rw [asking?_eq_none (composed.unasked_of_idle idle)]
      nofun
    · rw [lost] at client
      cases client
    · rw [stands] at client
      exact Pending.call_of_client (Bool.or_eq_false_iff.mp client).2
  | resume rest waiting => exact composed.resume h waiting
  | enter idle block mode =>
    have unasked := composed.unasked_of_idle idle
    unfold enter
    split
    · exact .of_free unasked rfl
    · exact .of_free (List.forall_mem_cons.mpr ⟨rfl, unasked⟩) rfl
  | leave inside result =>
    have idle := idle_of_inBody inside
    cases result with
    | value a => exact composed.leaveBy h (composed.unasked_of_idle idle) _
    | failure e => exact composed.leaveBy h (composed.unasked_of_idle idle) _
    | conflict c => exact composed.leaveOnConflict h c
  | decide _ b c asking control =>
    cases control with
    | stop =>
      refine ⟨composed.outer, fun _ => composed.lost ?_⟩
      rw [hasLost, asking]
      rfl
    | retry =>
      simp only [decide]
      split
      · exact .of_free composed.outer rfl
      · exact .of_free (List.forall_mem_cons.mpr ⟨rfl, composed.outer⟩) rfl
  | unwind =>
    unfold unwind
    split <;> exact composed.close _ _

/-! ## Faults of blocks -/

/-- The step is one that a block makes, and not one of its body or of other calls. -/
def drives (w : Worker) : WorkerAction α ε → Bool
  | .enter .. | .leave _ | .decide _ => true
  | .resume => w.pending.any Pending.isOfBlock
  | _ => false

/-- A fault has left the block.  The attempt has ended, or it is active as before, with the same writes and the same
    slots. -/
structure LeftByFault (w : Worker) (r : Runtime) (out : Response α ε × Runtime × Worker) : Prop where
  blocks : out.2.2.blocks = w.blocks.tail
  free : out.2.2.pending = none
  attempt : out.2.2.context.phase ≠ .active ∨ w.context.phase = .active ∧ (w.scope r).Stays (landing out)

section

variable {f : Fault}

theorem LeftByFault.close (attempt : s.context.phase ≠ .active ∨ w.context.phase = .active ∧ (w.scope r).Stays s) :
    LeftByFault (α := α) (ε := ε) w r (w.close (.faulted f) s) := ⟨rfl, rfl, attempt⟩

theorem LeftByFault.same : LeftByFault (α := α) (ε := ε) w r (w.close (.faulted f) (w.scope r)) := by
  refine .close ?_
  by_cases active : w.context.phase = .active
  · exact Or.inr ⟨active, rfl, rfl, rfl⟩
  · exact Or.inl active

section

variable (h : (w.scope r).Holding)

include h

theorem leftByFault_leaveBy {result : BlockResult α ε} (faulted : (w.leaveBy result r).1 = .faulted f) :
    LeftByFault w r (w.leaveBy result r) := by
  obtain ⟨s, split⟩ : ∃ s, (w.scope r).commit .block = (.faulted f, s) := ⟨_, Prod.ext (faulted_of_leaveBy faulted) rfl⟩
  rw [leaveBy_of_fault split]
  refine .close ?_
  by_cases active : w.context.phase = .active
  · have commits := h.commits active .block
    rw [split] at commits
    cases commits with
    | same same => exact Or.inr ⟨active, same.phase, same.writes, same.table⟩
    | committed committed => exact Or.inl (committed.phase.trans_ne Phase.noConfusion)
    | stopped _ stopped => exact Or.inr ⟨active, stopped.phase, stopped.writes, stopped.table⟩
  · have same : ((w.scope r).commit .block).2 = w.scope r := Scope.commit_snd_of_inactive active _
    rw [split] at same
    rw [show s = w.scope r from same]
    exact Or.inl active

/-- A block is left by a fault of its own only if its attempt cannot be counted or cannot commit, or if it is over. -/
theorem leftByFault_of_drives {action : WorkerAction α ε} (drives : w.drives action = true)
    (faulted : (w.step r action).1 = .faulted f) : LeftByFault w r (w.step r action) := by
  have dispatch := dispatch_step w r action
  generalize w.step r action = out at dispatch faulted ⊢
  cases dispatch with
  | refuse => cases faulted
  | call | unwind => cases drives
  | enter _ block mode =>
    obtain ⟨s, -, entered⟩ := enter_eq (α := α) (ε := ε) h block mode
    rw [entered] at faulted
    cases faulted
  | leave _ result =>
    cases result with
    | value a => exact leftByFault_leaveBy h faulted
    | failure e => exact leftByFault_leaveBy h faulted
    | conflict c =>
      rw [leave] at faulted ⊢
      rcases leaveOnConflict_eq (α := α) (ε := ε) h c with ⟨f, left⟩ | ⟨s, -, left⟩
      · rw [left]
        exact .same
      · rw [left] at faulted
        exact absurd faulted (afterConflict_ne rfl)
  | decide _ b c _ control =>
    cases control with
    | stop => cases faulted
    | retry =>
      obtain ⟨s, -, retried⟩ := retry_eq (α := α) (ε := ε) h b c
      rw [retried] at faulted
      cases faulted
  | resume rest waiting =>
    have ofBlock : rest.isOfBlock = true := by
      rwa [Worker.drives, waiting, Option.any_some] at drives
    cases rest with
    | extend => cases ofBlock
    | failCommit site =>
      rw [resume_eq_advance rfl] at faulted
      cases faulted
    | abort c site =>
      rw [resume_eq_advance rfl] at faulted ⊢
      rw [ofBlock, Scope.resume] at faulted ⊢
      rcases h.finishAbort c site with ⟨f, stopped⟩ | ⟨s, ended, -⟩
      · rw [stopped]
        exact .same
      · rw [ended] at faulted
        cases site with
        | block => exact absurd faulted (afterConflict_ne rfl)
        | _ => cases ofBlock
    | giveUp reason report =>
      unfold Worker.resume at faulted ⊢
      rw [Scope.resume] at faulted ⊢
      rcases (w.scope r).counted_finishGiveUp reason with ⟨f, stopped⟩ | ⟨s, ended, -⟩
      · rw [stopped]
        exact .same
      · rw [ended] at faulted
        cases faulted

end

end

end Worker

/-! ## Runs -/

namespace Chronicle

variable {t : Chronicle} {owner : OwnerId} {w : Worker} {settings : Settings} {r : Runtime}

/-- In a run of any contexts, a block that waits for its caller, or is about to give up, has lost its attempt. -/
theorem composed_run (new : Runtime.new? settings = .ok r) (m : Memory) {actions : List (Action α ε)}
    (owners : actions.countP Action.isAnnounce < lockBit)
    (there : ((start r m).run actions).system.worker? owner = some w) : w.Composed :=
  worker_run new m (fun _ w => w.Composed) (fun _ _ _ => .of_free (List.forall_mem_nil _) rfl) id
    (fun holding composed action => Worker.composed_step holding composed action) owners there

/-- A step of an owner leaves nothing that is held, if it leaves no attempt active. -/
theorem released_of_step (here : t.system.worker? owner = some w) {action : WorkerAction α ε}
    (later : (t.step (.act owner action)).system.Orderly)
    (inactive : (w.step t.system.runtime action).2.2.context.phase ≠ .active) :
    ∃ w', (t.step (.act owner action)).system.worker? owner = some w' ∧
      (t.step (.act owner action)).system.Released owner w' :=
  ⟨_, worker?_step_act here action, later.released (worker?_step_act here action) inactive⟩

end Chronicle

theorem Worker.phase_of_unwind {w : Worker} {r : Runtime} (h : (w.scope r).Holding) (inside : w.atClient = true) :
    (w.step (α := α) (ε := ε) r .unwind).1 = .replied .done ∧
      (w.step (α := α) (ε := ε) r .unwind).2.2.blocks = w.blocks.tail ∧
      (w.step (α := α) (ε := ε) r .unwind).2.2.context.phase ≠ .active := by
  obtain ⟨s, rolled, -, -, inactive, -⟩ := h.rollback
  rw [step, if_pos inside, unwind, rolled]
  exact ⟨rfl, rfl, inactive⟩

theorem Worker.phase_of_rollback {w : Worker} {r : Runtime} (h : (w.scope r).Holding) (idle : w.isBusy = false) :
    (w.step (α := α) (ε := ε) r (.call .rollback)).2.2.context.phase ≠ .active := by
  obtain ⟨s, rolled, -, -, inactive, -⟩ := h.rollback
  rw [step_call_of_idle idle, Scope.perform, rolled]
  exact inactive

/-- In a run of any contexts, whatever the bodies of their blocks do, let an owner be in a block.

If the body meets a fault, or the caller who is asked about a conflict, the attempt is rolled back and the block is
left: the context is not active, has no writes and holds no slot.  The same holds while the block waits for its
caller's answer, or is about to give up.  If a step of the block itself meets a fault, the block is left, and either
the same holds, or the attempt was active and is still so, with the writes and the slots that it had before the step;
a rollback of the context gives them back. -/
theorem faulted_block_released_unless_active {settings : Settings} {r : Runtime}
    (new : Runtime.new? settings = .ok r) (m : Memory) (before : List (Action α ε)) (owner : OwnerId)
    (w : Worker) (owners : before.countP Action.isAnnounce < lockBit) :
    let t := (Chronicle.start r m).run before
    t.system.worker? owner = some w →
    (w.atClient = true →
      let unwind : Action α ε := .act owner .unwind
      (t.system.step unwind).1 = .replied .done ∧ ∃ w', (t.step unwind).system.worker? owner = some w' ∧
        w'.blocks = w.blocks.tail ∧ (t.step unwind).system.Released owner w') ∧
    (w.hasLost = true → t.system.Released owner w) ∧
    ∀ (action : WorkerAction α ε) (f : Fault), w.drives action = true →
      (t.system.step (.act owner action)).1 = .faulted f →
      let t' := t.step (.act owner action)
      ∃ w', t'.system.worker? owner = some w' ∧ w'.blocks = w.blocks.tail ∧
        (t'.system.Released owner w' ∨
          w.context.phase = .active ∧ w'.context.phase = .active ∧ w'.context.writes = w.context.writes ∧
            (∀ slot, t'.system.runtime.table.word slot = .held owner ↔
              t.system.runtime.table.word slot = .held owner) ∧
            ∃ w'', (t'.step (.act owner (.call .rollback) : Action α ε)).system.worker? owner = some w'' ∧
              (t'.step (.act owner (.call .rollback) : Action α ε)).system.Released owner w'') := by
  intro t here
  have along : ∀ a b : WorkerAction α ε, t.OrderlyAlong [.act owner a, .act owner b] := fun a b =>
    Chronicle.orderlyAlong_run new m (by simpa [List.countP_append, Action.isAnnounce] using owners)
  have orderly : t.system.Orderly := along .resume .resume [] _ rfl
  have holding := orderly.holding owner w here
  have composed : w.Composed := Chronicle.composed_run new m owners here
  refine ⟨fun inside => ?_, fun lost => orderly.released here (composed.lost lost), fun action f drives faulted => ?_⟩
  · obtain ⟨told, blocks, inactive⟩ := Worker.phase_of_unwind (α := α) (ε := ε) holding inside
    have there := Chronicle.worker?_step_act (α := α) (ε := ε) here .unwind
    have later : (t.step (.act owner .unwind : Action α ε)).system.Orderly := along .unwind .resume [_] _ rfl
    exact ⟨(Chronicle.response_step_act here _).trans told, _, there, blocks, later.released there inactive⟩
  · have there := Chronicle.worker?_step_act here action
    have later : (t.step (.act owner action)).system.Orderly := along action .resume [_] _ rfl
    rw [Chronicle.response_step_act here] at faulted
    obtain ⟨blocks, free, attempt⟩ := Worker.leftByFault_of_drives holding drives faulted
    refine ⟨_, there, blocks, ?_⟩
    rcases attempt with inactive | ⟨active, stays⟩
    · exact Or.inl (later.released there inactive)
    · refine Or.inr ⟨active, stays.phase.trans active, stays.writes, fun slot => ?_, ?_⟩
      · rw [Chronicle.runtime_step_act here, show (w.step _ action).2.1.table = _ from stays.table]
        rfl
      · have unasked := Worker.asking?_eq_none (fun b member => composed.outer b (blocks ▸ member))
        have idle : (w.step t.system.runtime action).2.2.isBusy = false := by
          rw [Worker.isBusy, free, unasked]
          rfl
        exact Chronicle.released_of_step there (along action (.call .rollback)).last
          (Worker.phase_of_rollback (later.holding owner _ there) idle)

/-- The body of a block has written to a missing field.  If it meets a fault then, the block releases its slots; if it
    ends with a value, the commit meets the fault, and the slots are held until the context is rolled back. -/
theorem faulted_block_released_unless_active_of_two :
    let before : List (Action Unit Unit) :=
      [.announce, .register ⟨1⟩, .act ⟨1⟩ (.enter 1 .regular), .act ⟨1⟩ (.call (.write ⟨16, 5⟩ (.u64 7))),
       .act ⟨1⟩ (.call (.write ⟨16, 0⟩ (.u64 8)))]
    let unwind : Action Unit Unit := .act ⟨1⟩ .unwind
    let leave : Action Unit Unit := .act ⟨1⟩ (.leave (.value ()))
    let rollback : Action Unit Unit := .act ⟨1⟩ (.call .rollback)
    let t := (Chronicle.start smallRuntime pair).run before
    (∃ w, (t.step unwind).system.worker? ⟨1⟩ = some w ∧ (t.step unwind).system.Released ⟨1⟩ w) ∧
      (t.system.step leave).1 = .faulted (.outOfBounds 2 5) ∧
      ∃ w, ((t.step leave).step rollback).system.worker? ⟨1⟩ = some w ∧
        ((t.step leave).step rollback).system.Released ⟨1⟩ w := by
  intro before unwind leave rollback t
  have there : (t.system.worker? ⟨1⟩).isSome = true := by decide +kernel
  obtain ⟨w, here⟩ := Option.isSome_iff_exists.mp there
  have inside : ∀ w ∈ t.system.worker? ⟨1⟩, w.atClient = true := by decide +kernel
  have faulted : (t.system.step leave).1 = .faulted (.outOfBounds 2 5) := by decide +kernel
  have active : ∀ w ∈ (t.step leave).system.worker? ⟨1⟩, w.context.phase = .active := by decide +kernel
  have released := faulted_block_released_unless_active smallRuntime_new pair before ⟨1⟩ w (by decide)
  simp only [t, unwind, leave, rollback] at here inside faulted active ⊢
  obtain ⟨body, -, block⟩ := released here
  obtain ⟨-, w', unwound, -, free⟩ := body (inside w here)
  obtain ⟨w'', left, -, ended⟩ := block (.leave (.value ())) _ rfl faulted
  refine ⟨⟨w', unwound, free⟩, faulted, ?_⟩
  rcases ended with given | ⟨-, -, -, -, later⟩
  · exact absurd (active w'' left) given.inactive
  · exact later

/-- A fault of a commit is not unwound: the block is left, and its context is active and holds a slot, which another
    context meets. -/
theorem faulted_commit_of_block_keeps_slot :
    let before : List (Action Unit Unit) :=
      [.announce, .announce, .register ⟨1⟩, .register ⟨2⟩, .act ⟨1⟩ (.enter 1 .regular),
       .act ⟨1⟩ (.call (.write ⟨16, 5⟩ (.u64 7))), .act ⟨1⟩ (.call (.write ⟨16, 0⟩ (.u64 8)))]
    let leave : Action Unit Unit := .act ⟨1⟩ (.leave (.value ()))
    let t := (Chronicle.start smallRuntime pair).run before
    let t' := t.step leave
    (t.system.step leave).1 = .faulted (.outOfBounds 2 5) ∧
      (t'.system.worker? ⟨1⟩).map (fun w => (w.context.phase, w.context.writes.isEmpty, w.blocks)) =
        some (.active, false, []) ∧
      t'.system.runtime.table.word (smallRuntime.table.slotOf ⟨16, 0⟩) = .held ⟨1⟩ ∧
      (t'.system.run [.act ⟨2⟩ (.call (.start 0 .regular)),
        (.act ⟨2⟩ (.call (.read ⟨16, 0⟩ .u64)) : Action Unit Unit)]).1 =
        [.replied .done, .standing (.abort ⟨2⟩ 0 .lockedByOther)] := by
  decide +kernel

end TransactionalMemory
