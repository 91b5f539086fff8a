import TransactionalMemory.Proofs.Aborted
import TransactionalMemory.Proofs.Deeds

/-! # The stages of an atomic block

Between two of its steps, a block whose body only reads and writes is at one of four stages
(`Worker.Stage`): its body runs, a call stands at an event, the block waits for an answer to a conflict, or
it is about to give up.  At none of them its attempt has committed.

A step of the block leads to a stage again, or it meets a fault, or it ends the block
(`Worker.Stage.step`).  A block ends well in one way only: its body has just returned, and the attempt in
progress commits, with all the writes of the body in its log (`RedoLog.Mirrors`).
-/

namespace TransactionalMemory

variable {α ε : Type}

/-! ## Logs and accesses -/

theorem execute_of_reads {reads : List Access} (only : ∀ a ∈ reads, a.isRead = true) (m : Words) :
    execute reads m = m := by
  induction reads with
  | nil => rfl
  | cons a reads ih =>
    obtain ⟨first, rest⟩ := List.forall_mem_cons.mp only
    cases a with
    | read q => exact ih rest
    | write l v => cases first

/-- To store the log is to execute the accesses. -/
def RedoLog.Mirrors (log : RedoLog) (accesses : List Access) : Prop :=
  ∀ m, overlay log.entries m = execute accesses m

namespace RedoLog.Mirrors

variable {log log' : RedoLog} {accesses reads : List Access} {slotOf : Location → Nat} {l : Location}
  {v : Value} {stamp : Option Nat}

theorem empty : ({} : RedoLog).Mirrors [] := fun _ => rfl

theorem append_reads (h : log.Mirrors accesses) (only : ∀ a ∈ reads, a.isRead = true) :
    log.Mirrors (accesses ++ reads) := by
  intro m
  rw [execute_append, execute_of_reads only, h m]

theorem append_write (h : log.Mirrors accesses) (wf : log.WellFormed slotOf)
    (appended : Appended log log' slotOf l v stamp) : log'.Mirrors (accesses ++ [.write l v]) := by
  intro m
  rw [overlay_append wf appended, execute_append, execute_write, h m]

end RedoLog.Mirrors

/-! ## What a block may be told -/

/-- An access of the body, its end, the answer to a conflict, or that a call may go on. -/
def WorkerAction.isOfBlock : WorkerAction α ε → Bool
  | call request => request.isAccess
  | resume | leave _ | decide _ => true
  | enter .. | unwind => false

/-- The block is left, or its body is, with a fault. -/
def Response.isOver : Response α ε → Bool
  | faulted _ | ended _ => true
  | _ => false

def Response.isAttempt : Response α ε → Bool
  | attempt => true
  | _ => false

/-- How a block ends whose body has returned and whose attempt then has committed. -/
def BodyResult.committed? : BodyResult α ε → Option (BlockResult α ε)
  | value a => some (.validated a)
  | failure e => some (.cancelled e)
  | conflict _ => none

namespace Worker

/-! ## Stages -/

/-- The accesses are those of an attempt that is active, with the writes among them in its log, or that was
    aborted. -/
def Attempting (w : Worker) (accesses : List Access) : Prop :=
  w.context.phase = .active ∧ w.context.writes.Mirrors accesses ∨ ∃ c, w.context.AbortedFor c

/-- How far the innermost block has come whose body has begun so many times, and whose last attempt has
    completed the accesses. -/
inductive Stage (block : Nat) (mode : Mode) (outer : List Block) (runs : Nat) (accesses : List Access)
    (w : Worker) : Prop where
  | body (free : w.pending = none) (blocks : w.blocks = ⟨block, mode, runs, none⟩ :: outer)
      (attempting : w.Attempting accesses)
  | standing (rest : Pending) (waiting : w.pending = some rest) (call : rest.isGiveUp = false)
      (blocks : w.blocks = ⟨block, mode, runs, none⟩ :: outer) (active : w.context.phase = .active)
      (mirrors : ∀ candidate next, rest = .extend candidate next → w.context.writes.Mirrors accesses)
  | asking (c : Conflict) (free : w.pending = none)
      (blocks : w.blocks = ⟨block, mode, runs, some c⟩ :: outer) (aborted : w.context.phase = .aborted)
  | givingUp (reason : GiveUpReason) (waiting : w.pending = some (.giveUp reason ⟨block, runs⟩))
      (aborted : w.context.phase = .aborted)

section

variable {w : Worker} {block runs : Nat} {mode : Mode} {outer : List Block} {d d' : Attempt}

theorem Attempting.reads (attempting : w.Attempting d.accesses) (adds : Note.nothing.Adds d d') :
    w.Attempting d'.accesses := by
  obtain ⟨-, reads, accesses, only⟩ := adds
  rw [accesses]
  exact attempting.imp_left fun ⟨active, mirrors⟩ => ⟨active, mirrors.append_reads only⟩

theorem Stage.reads (stage : Stage block mode outer runs d.accesses w) (adds : Note.nothing.Adds d d') :
    Stage block mode outer runs d'.accesses w := by
  cases stage with
  | body free blocks attempting => exact .body free blocks (attempting.reads adds)
  | standing rest waiting call blocks active mirrors =>
    obtain ⟨-, reads, accesses, only⟩ := adds
    refine .standing rest waiting call blocks active fun candidate next extending => ?_
    rw [accesses]
    exact (mirrors candidate next extending).append_reads only
  | asking c free blocks aborted => exact .asking c free blocks aborted
  | givingUp reason waiting aborted => exact .givingUp reason waiting aborted

theorem Stage.uncommitted {accesses : List Access} (stage : Stage block mode outer runs accesses w) :
    w.context.phase ≠ .committed := by
  cases stage with
  | body _ _ attempting =>
    rcases attempting with ⟨active, -⟩ | ⟨c, aborted⟩
    · exact Phase.not_committed active
    · rw [aborted.phase]
      exact Phase.noConfusion
  | standing _ _ _ _ active => exact Phase.not_committed active
  | asking _ _ _ aborted | givingUp _ _ aborted =>
    rw [aborted]
    exact Phase.noConfusion

end

/-! ## Steps of a block -/

/-- What a step of a block comes to. -/
inductive Onward (block : Nat) (mode : Mode) (outer : List Block) (runs : Nat) (d : Attempt) (w : Worker)
    (r : Runtime) (action : WorkerAction α ε) (out : Response α ε × Runtime × Worker) : Prop where
  | fault (f : Fault) (told : out.1 = .faulted f)
  | goesOn (unended : out.1.isOver = false) (stage : ∀ d', (action.note out.1).Adds d d' →
      Stage block mode outer (runs + out.1.isAttempt.toNat) d'.accesses out.2.2)
  | commits (body : BodyResult α ε) (result : BlockResult α ε) (leaves : action = .leave body)
      (returned : body.committed? = some result) (told : out.1 = .ended result)
      (committed : Scope.Committed (w.scope r) (landing out))
      (mirrors : w.context.writes.Mirrors d.accesses)
  | givesUp (told : out.1 = .ended (.failed ⟨block, runs⟩)) (aborted : out.2.2.context.phase = .aborted)
      (memory : out.2.1.memory = r.memory)

namespace Onward

variable {w : Worker} {r : Runtime} {block runs ticks : Nat} {mode : Mode} {outer : List Block} {d : Attempt}
  {action : WorkerAction α ε} {p : Progress × Scope} {c : Conflict}

theorem refuse (stage : Stage block mode outer runs d.accesses w) (why : Refusal) :
    Onward block mode outer runs d w r action (w.refuse why r) := by
  refine .goesOn rfl fun d' adds => ?_
  rw [Worker.refuse, WorkerAction.note_refused] at adds
  exact stage.reads adds

section

variable (blocks : w.blocks = ⟨block, mode, runs, none⟩ :: outer)

include blocks

/-- A call that only looks answers, or it stands at an event. -/
theorem look {ofBlock : Bool} (active : w.context.phase = .active)
    (mirrors : w.context.writes.Mirrors d.accesses) (looks : Scope.Looks (w.scope r) p.2)
    (g : Scope.Segment (w.scope r) ticks p)
    (note : action.note (w.advance (α := α) (ε := ε) ofBlock p).1 = .nothing) :
    Onward block mode outer runs d w r action (w.advance ofBlock p) := by
  obtain ⟨a, s⟩ := p
  obtain ⟨upper, reads, window, rfl⟩ := looks
  cases a with
  | answered a =>
    refine .goesOn rfl fun d' adds => ?_
    rw [note] at adds
    exact .body rfl blocks (Attempting.reads (Or.inl ⟨active, mirrors⟩) adds)
  | faulted f => cases ofBlock <;> exact .fault f rfl
  | standing e rest =>
    refine .goesOn rfl fun d' adds => ?_
    rw [note] at adds
    obtain ⟨-, reads, accesses, only⟩ := adds
    refine .standing rest rfl (g.standing e rest rfl).2.2 blocks active fun _ _ _ => ?_
    rw [accesses]
    exact mirrors.append_reads only
  | commitLost => cases g.steady active

theorem write (h : (w.scope r).Holding) (active : w.context.phase = .active)
    (mirrors : w.context.writes.Mirrors d.accesses) (l : Location) (v : Value) :
    Onward (α := α) (ε := ε) block mode outer runs d w r (.call (.write l v))
      (w.advance false ((w.scope r).write l v)) := by
  have g := Scope.Segment.write (l := l) (v := v) (w.scope r)
  have writes := Scope.writes_write (l := l) (v := v) (w.scope r)
  generalize (w.scope r).write l v = p at g writes ⊢
  obtain ⟨a, s⟩ := p
  cases writes with
  | none same undone =>
    cases same
    exact .look blocks active mirrors (.refl _) g (note_write_advance w undone)
  | log logged done =>
    cases done
    refine .goesOn rfl fun d' adds => .body rfl blocks (Or.inl ⟨logged.phase.trans active, ?_⟩)
    rw [adds.2]
    exact mirrors.append_write h.wellFormed (h.wellFormed.append logged.logged)
  | take stamp taken told =>
    rcases told with done | ⟨f, faulted⟩ | ⟨e, c, stands⟩
    · cases done
      refine .goesOn rfl fun d' adds => .body rfl blocks (Or.inl ⟨taken.phase.trans active, ?_⟩)
      rw [adds.2]
      exact mirrors.append_write h.wellFormed (h.wellFormed.append taken.logged)
    · cases faulted
      exact .fault f rfl
    · cases stands
      exact .goesOn rfl fun _ _ => .standing _ rfl rfl blocks (taken.phase.trans active) nofun

theorem access (h : (w.scope r).Holding) (attempting : w.Attempting d.accesses) {request : Request}
    (access : request.isAccess = true) :
    Onward (α := α) (ε := ε) block mode outer runs d w r (.call request)
      (w.advance false ((w.scope r).perform request)) := by
  rcases attempting with ⟨active, mirrors⟩ | ⟨c, aborted⟩
  · cases request with
    | probe l => exact .look blocks active mirrors (.probe _) (.probe _) (note_advance rfl w _)
    | load l kind => exact .look blocks active mirrors (.load _) (.load _) (note_advance rfl w _)
    | read l kind => exact .look blocks active mirrors (.read _) (.read _) (note_advance rfl w _)
    | write l v => exact .write blocks h active mirrors l v
    | _ => cases access
  · have told : WorkerAction.note (.call request) (.replied (.aborted c) : Response α ε) = .nothing := by
      cases request <;> rfl
    rw [Scope.perform_of_aborted aborted access]
    refine .goesOn rfl fun d' adds => ?_
    rw [advance, settle, told] at adds
    exact .body rfl blocks (Attempting.reads (Or.inr ⟨c, aborted⟩) adds)

/-- An attempt has ended in a conflict. -/
theorem conflict {s : Scope} (aborted : s.context.phase = .aborted) (c : Conflict) :
    Onward block mode outer runs d w r action (w.afterConflict c s) := by
  unfold afterConflict
  rw [blocks]
  dsimp only
  split
  · exact .goesOn rfl fun _ _ => .givingUp _ rfl aborted
  · exact .goesOn rfl fun _ _ => .asking c rfl rfl aborted

section

variable (h : (w.scope r).Holding)

include h

theorem leaveBy (attempting : w.Attempting d.accesses) {body : BodyResult α ε} {result : BlockResult α ε}
    (returned : body.committed? = some result) :
    Onward block mode outer runs d w r (.leave body) (w.leaveBy result r) := by
  rcases leaveBy_cases h result with ⟨f, faulted⟩ | ⟨s, -, verdict, closed⟩ | ⟨e, s, -, active, stands⟩ |
    ⟨aborted, conflict⟩
  · exact .fault f faulted
  · rcases attempting with ⟨active, mirrors⟩ | ⟨c, aborted⟩
    · have commits := h.commits active .block
      rw [verdict] at commits
      cases commits with
      | same same told => rcases told with ⟨f, told⟩ | ⟨e, told⟩ <;> cases told
      | committed committed =>
        rw [closed]
        exact .commits body result rfl returned rfl committed mirrors
      | stopped f stopped told => cases told
    · -- A commit of an aborted attempt does not succeed, whatever the body makes of the abort.
      rw [Scope.commit_of_aborted aborted] at verdict
      cases verdict
  · rw [stands]
    exact .goesOn rfl fun _ _ => .standing _ rfl rfl blocks active nofun
  · rw [conflict]
    exact .conflict blocks aborted _

theorem leave (attempting : w.Attempting d.accesses) (body : BodyResult α ε) :
    Onward block mode outer runs d w r (.leave body) (w.leave body r) := by
  cases body with
  | value a => exact .leaveBy blocks h attempting rfl
  | failure e => exact .leaveBy blocks h attempting rfl
  | conflict c =>
    rw [Worker.leave]
    rcases leaveOnConflict_cases (α := α) (ε := ε) h c with ⟨f, faulted⟩ | ⟨s, left, ended⟩
    · rw [faulted]
      exact .fault f rfl
    · rw [left]
      rcases ended with ⟨-, -, aborted⟩ | ⟨inactive, same⟩
      · exact .conflict blocks aborted c
      · -- The body may name another conflict than the one that the attempt was aborted for.
        rcases attempting with ⟨active, -⟩ | ⟨c', aborted⟩
        · exact absurd active inactive
        · exact .conflict blocks (same.phase.trans aborted.phase) c

theorem resume {rest : Pending} (call : rest.isGiveUp = false) (active : w.context.phase = .active)
    (mirrors : ∀ candidate next, rest = .extend candidate next → w.context.writes.Mirrors d.accesses) :
    Onward (α := α) (ε := ε) block mode outer runs d w r .resume (w.resume rest r) := by
  rw [resume_eq_advance call]
  cases rest with
  | giveUp reason report => cases call
  | failCommit site => exact .goesOn rfl fun _ _ => .standing _ rfl rfl blocks active nofun
  | extend candidate next =>
    exact .look blocks active (mirrors candidate next rfl) (.extended _ candidate next)
      (.extended _ candidate next) (WorkerAction.note_of_plain rfl (attempt_ne_advance w _ _))
  | abort c site =>
    rw [Scope.resume]
    rcases h.finishAbort c site with ⟨f, faulted⟩ | ⟨s, ended, withdrawn, conflict, aborts⟩
    · rw [faulted]
      cases (Pending.abort c site).isOfBlock <;> exact .fault f rfl
    · have aborted : s.context.AbortedFor c := ⟨aborts active, conflict, withdrawn.empty⟩
      rw [ended]
      cases site with
      | access => exact .goesOn rfl fun _ _ => .body rfl blocks (Or.inr ⟨c, aborted⟩)
      | commit => exact .goesOn rfl fun _ _ => .body rfl blocks (Or.inr ⟨c, aborted⟩)
      | block => exact .conflict blocks aborted.phase _

end

end

/-- The answer to a conflict begins another attempt, or the block is about to give up. -/
theorem decide (h : (w.scope r).Holding) (blocks : w.blocks = ⟨block, mode, runs, some c⟩ :: outer)
    (aborted : w.context.phase = .aborted) (control : Control) :
    Onward (α := α) (ε := ε) block mode outer runs d w r (.decide control)
      (w.decide ⟨block, mode, runs, some c⟩ c control r) := by
  cases control with
  | stop => exact .goesOn rfl fun _ _ => .givingUp .abandoned rfl aborted
  | retry =>
    obtain ⟨s, started, withdrawn, active⟩ := h.starts block mode
    simp only [Worker.decide, scope, blocks, List.tail_cons] at started ⊢
    rw [started]
    refine .goesOn rfl fun d' adds => .body rfl rfl (Or.inl ⟨active, ?_⟩)
    cases adds
    show s.context.writes.Mirrors []
    rw [withdrawn.empty]
    exact .empty

/-- A block that gives up ends, and nothing is stored. -/
theorem givingUp {reason : GiveUpReason} (aborted : w.context.phase = .aborted) :
    Onward (α := α) (ε := ε) block mode outer runs d w r .resume
      (w.resume (.giveUp reason ⟨block, runs⟩) r) := by
  have same := Scope.same_finishGiveUp (w.scope r) reason
  unfold Worker.resume
  rw [Scope.resume]
  generalize (w.scope r).finishGiveUp reason = p at same ⊢
  obtain ⟨result, s⟩ := p
  cases result with
  | error f => exact .fault f rfl
  | ok => exact .givesUp rfl (same.phase.trans aborted) same.memory

end Onward

/-- A block that is entered begins with the first attempt of its body. -/
theorem Stage.enter {w : Worker} {r : Runtime} (h : (w.scope r).Holding) {block : Nat} {mode : Mode}
    (entered : (w.step (α := α) (ε := ε) r (.enter block mode)).1 = .attempt) :
    Stage block mode w.blocks 1 [] (w.step (α := α) (ε := ε) r (.enter block mode)).2.2 := by
  have dispatch := dispatch_step (α := α) (ε := ε) w r (.enter block mode)
  generalize w.step r (.enter block mode) = out at dispatch entered ⊢
  cases dispatch with
  | refuse => cases entered
  | enter =>
    obtain ⟨s, started, withdrawn, active⟩ := h.starts block mode
    unfold Worker.enter
    rw [started]
    refine .body rfl rfl (Or.inl ⟨active, ?_⟩)
    show s.context.writes.Mirrors []
    rw [withdrawn.empty]
    exact .empty

theorem Stage.step {w : Worker} {r : Runtime} {block runs : Nat} {mode : Mode} {outer : List Block}
    {d : Attempt} (stage : Stage block mode outer runs d.accesses w) (h : (w.scope r).Holding)
    {action : WorkerAction α ε} (ofBlock : action.isOfBlock = true) :
    Onward block mode outer runs d w r action (w.step r action) := by
  have dispatch := dispatch_step w r action
  generalize w.step r action = out at dispatch ⊢
  cases dispatch with
  | refuse => exact .refuse stage _
  | call idle request =>
    cases stage with
    | body free blocks attempting => exact .access blocks h attempting ofBlock
    | standing rest waiting => cases waiting.symm.trans (free_of_not_isBusy idle)
    | asking c free blocks => simp [isBusy, asking?, blocks] at idle
    | givingUp reason waiting => cases waiting.symm.trans (free_of_not_isBusy idle)
  | resume rest waiting =>
    cases stage with
    | body free => cases waiting.symm.trans free
    | standing rest' waiting' call blocks active mirrors =>
      cases waiting.symm.trans waiting'
      exact .resume blocks h call active mirrors
    | asking c free => cases waiting.symm.trans free
    | givingUp reason waiting' aborted =>
      cases waiting.symm.trans waiting'
      exact .givingUp aborted
  | leave inside body =>
    cases stage with
    | body free blocks attempting => exact .leave blocks h attempting body
    | standing rest waiting => cases waiting.symm.trans (free_of_inBody inside)
    | asking c free blocks => simp [inBody, isBusy, asking?, blocks] at inside
    | givingUp reason waiting => cases waiting.symm.trans (free_of_inBody inside)
  | decide free b c asking control =>
    cases stage with
    | body _ blocks => simp [asking?, blocks] at asking
    | standing rest waiting => cases waiting.symm.trans free
    | asking c' _ blocks aborted =>
      have asks : some (⟨block, mode, runs, some c'⟩, c') = some (b, c) := by
        rw [← asking, asking?, blocks]
        rfl
      cases asks
      exact .decide h blocks aborted control
    | givingUp reason waiting => cases waiting.symm.trans free
  | enter | unwind => cases ofBlock

end Worker

end TransactionalMemory
