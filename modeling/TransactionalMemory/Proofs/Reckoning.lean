import TransactionalMemory.Proofs.Clients
import TransactionalMemory.Proofs.Configuration
import TransactionalMemory.Proofs.Counters
import TransactionalMemory.Proofs.Dialogues

/-! # How an attempt of a block is reckoned

An attempt of a block whose body reads and writes is counted once, as a commit or under one conflict.  The engine
counts it when it aborts it, or else the block counts it when the body has ended (`Context.Met`).  A body may make of
an abort what it likes, so the conflict that a block tells its caller, and logs when it gives up, is told by how the
body has ended (`BodyResult.told`), and the one that the attempt is counted under by whether the engine had aborted it
before (`Ending.counted`).

A block is at one stage with this account of its attempt (`Worker.Reckoning`), which also says how far the dialogue
with its caller and the number of its attempts have come, and a step of the block leads from one such stage to the next
(`Worker.Reckoning.step`).
-/

namespace TransactionalMemory

variable {α ε : Type}

/-! ## Ends of bodies -/

/-- The conflict that a body stands for whose attempt has not committed. -/
def BodyResult.told : BodyResult α ε → Conflict
  | conflict c => c
  | _ => .invalidCommit

/-- How a body has ended, and the conflict that the engine had aborted its attempt for until then, if it had. -/
structure Ending (α ε : Type) where
  body : BodyResult α ε
  before : Option Conflict

/-- The conflict that an attempt is counted under that has not committed. -/
def Ending.counted (e : Ending α ε) : Conflict := e.before.getD e.body.told

/-- The conflict that the caller of a block is asked about, or that the block logs when it gives up. -/
def Response.tells? : Response α ε → Option Conflict
  | question c | standing (.gaveUp _ _ c) => some c
  | _ => none

/-- Nothing is told that the caller of a block has asked for, or has to answer. -/
def Response.isSilent : Response α ε → Bool
  | replied _ | refused _ => true
  | standing e => !e.isGaveUp
  | _ => false

/-- If a conflict is told, the body of the attempt has ended and stands for it, and the attempt has been counted. -/
def Response.TellsOf (response : Response α ε) (ending : Option (Ending α ε)) (base tally : Tally) : Prop :=
  ∀ c, response.tells? = some c → ∃ e ∈ ending, e.body.told = c ∧ base.countAbort e.counted = .ok tally

/-- What the engine has made of an attempt so far that began with the given counters: it is active, and nothing was
    counted, or it was aborted for a conflict, and counted under it. -/
def Context.Met (context : Context) (base : Tally) : Option Conflict → Prop
  | none => context.phase = .active ∧ context.tally = base
  | some c => context.AbortedFor c ∧ base.countAbort c = .ok context.tally

namespace Scope

variable {s s' : Scope}

/-! ## What the segments of a commit and of an abort count -/

/-- A segment of a commit counts the commit if it tells of its success, and nothing otherwise. -/
inductive CountsCommit (s : Scope) (p : Progress × Scope) : Prop where
  | counted (wroteNothing : Bool) (told : p.1 = .answered (.verdict true))
      (counted : s.context.tally.count (.committed s.context.mode wroteNothing) = .ok p.2.context.tally)
  | still (told : p.1 ≠ .answered (.verdict true)) (same : p.2.context.tally = s.context.tally)

namespace CountsCommit

theorem finishCommit {t : Scope} (mode : t.context.mode = s.context.mode) (tally : t.context.tally = s.context.tally)
    (wroteNothing : Bool) : CountsCommit s (t.finishCommit wroteNothing) := by
  unfold Scope.finishCommit
  dsimp only
  split
  · exact .still nofun tally
  · next counted =>
    rw [mode, tally] at counted
    exact .counted wroteNothing rfl counted

theorem storeWrites {t : Scope} (context : t.context = s.context) (stamp : Nat) :
    CountsCommit s (t.storeWrites stamp) := by
  have mode : t.context.mode = s.context.mode := congrArg Context.mode context
  have tally : t.context.tally = s.context.tally := congrArg Context.tally context
  unfold Scope.storeWrites
  dsimp only
  split
  · exact .still nofun tally
  · exact .finishCommit (by exact mode) (by exact tally) false

theorem commitAt {t : Scope} (context : t.context = s.context) (stamp : Nat) (site : AbortSite) :
    CountsCommit s (t.commitAt stamp site) := by
  have still : ∀ a : Progress, a ≠ .answered (.verdict true) → CountsCommit s (a, t) :=
    fun a told => .still told (congrArg Context.tally context)
  unfold Scope.commitAt
  dsimp only
  split
  · exact still _ nofun
  · split
    · exact .storeWrites context stamp
    · split
      · exact still _ nofun
      · exact .storeWrites context stamp
      · exact still _ nofun

theorem commit (active : s.context.phase = .active) (site : AbortSite) : CountsCommit s (s.commit site) := by
  unfold Scope.commit
  rw [active]
  dsimp only
  split
  · exact .finishCommit rfl rfl true
  · split
    · exact .still nofun rfl
    · exact .commitAt (by rfl) _ site

end CountsCommit

/-- An abort that is reported is counted. -/
theorem counted_of_finishAbort {c : Conflict} {site : AbortSite} (ended : s.finishAbort c site = (site.report c, s')) :
    s.context.tally.countAbort c = .ok s'.context.tally := by
  unfold finishAbort at ended
  split at ended
  · cases site <;> cases ended
  · next tally counted =>
    have rolled := tally_rollback ⟨s.runtime, { s.context with tally, lastConflict := some c }⟩
    split at ended
    · cases site <;> cases ended
    · next s₁ given =>
      rw [given] at rolled
      have same : s₁ = s' := by cases site <;> cases ended <;> rfl
      rw [counted, ← same]
      exact congrArg Except.ok rolled.symm

theorem finishGiveUp_eq (s : Scope) (reason : GiveUpReason) :
    (∃ f, s.finishGiveUp reason = (.error f, s)) ∨
    ∃ tally, s.context.tally.count (.gaveUp reason) = .ok tally ∧
      s.finishGiveUp reason = (.ok (), { s with context := { s.context with tally } }) := by
  unfold finishGiveUp
  dsimp only
  split
  · exact Or.inl ⟨_, rfl⟩
  · next tally counted =>
    refine Or.inr ⟨tally, ?_, rfl⟩
    cases reason <;> exact counted

/-! ## What calls leave as it was -/

theorem met_of_looks {base : Tally} (met : s.context.Met base none) (looks : Looks s s') :
    s'.context.Met base none := by
  obtain ⟨upper, reads, window, rfl⟩ := looks
  exact met

theorem met_access {base : Tally} (met : s.context.Met base none) {request : Request}
    (access : request.isAccess = true) : (s.perform request).2.context.Met base none := by
  cases request with
  | probe l => exact met_of_looks met (.probe s)
  | load l kind => exact met_of_looks met (.load s)
  | read l kind => exact met_of_looks met (.read s)
  | write l v => exact ⟨s.phase_write.trans met.1, s.tally_write.trans met.2⟩
  | _ => cases access

end Scope

/-! ## The stages of an attempt -/

namespace Worker

/-- How far a block has come that is in an attempt, which began with the counters `base`: what passed between the block
    and its caller, and how the body has ended, if it has.  The block `b` is as it was when the attempt began. -/
inductive Reckoning (b : Block) (outer : List Block) (budget : Option Nat) (base : Tally) (w : Worker) :
    Dialogue → Option (Ending α ε) → Prop where
  | body (before : Option Conflict) (free : w.pending = none) (blocks : w.blocks = b :: outer)
      (met : w.context.Met base before) : Reckoning b outer budget base w (.during b.attempts) none
  | standing (rest : Pending) (waiting : w.pending = some rest) (client : rest.isOfBlock = false)
      (blocks : w.blocks = b :: outer) (met : w.context.Met base none) :
      Reckoning b outer budget base w (.during b.attempts) none
  /-- The commit of the attempt has failed, and stands before its abort. -/
  | failing (body : BodyResult α ε) (returned : body.told = .invalidCommit) (rest : Pending)
      (waiting : w.pending = some rest) (fails : rest = .failCommit .block ∨ rest = .abort .invalidCommit .block)
      (blocks : w.blocks = b :: outer) (met : w.context.Met base none) :
      Reckoning b outer budget base w (.during b.attempts) (some ⟨body, none⟩)
  | asking (e : Ending α ε) (free : w.pending = none)
      (blocks : w.blocks = { b with question := some e.body.told } :: outer) (aborted : w.context.phase = .aborted)
      (counted : base.countAbort e.counted = .ok w.context.tally) (left : ∀ n ∈ budget, b.attempts < n) :
      Reckoning b outer budget base w (.asking b.attempts) (some e)
  | exhausted (e : Ending α ε) (waiting : w.pending = some (.giveUp .exhausted ⟨b.id, b.attempts⟩))
      (aborted : w.context.phase = .aborted) (counted : base.countAbort e.counted = .ok w.context.tally)
      (last : budget = some b.attempts) : Reckoning b outer budget base w (.during b.attempts) (some e)
  | abandoned (e : Ending α ε) (waiting : w.pending = some (.giveUp .abandoned ⟨b.id, b.attempts⟩))
      (aborted : w.context.phase = .aborted) (counted : base.countAbort e.counted = .ok w.context.tally) :
      Reckoning b outer budget base w (.stopped b.attempts) (some e)

/-- The body of the attempt ends with a step, or it has ended as before. -/
inductive Ends (base : Tally) (w : Worker) (action : WorkerAction α ε) :
    Option (Ending α ε) → Option (Ending α ε) → Prop where
  | same (ending : Option (Ending α ε)) : Ends base w action ending ending
  | now (e : Ending α ε) (leaves : action = .leave e.body) (inside : w.inBody = true)
      (met : w.context.Met base e.before) : Ends base w action none (some e)

/-- What a step of a block comes to. -/
inductive Reckons (b : Block) (outer : List Block) (budget : Option Nat) (base : Tally) (d : Dialogue)
    (ending : Option (Ending α ε)) (w : Worker) (action : WorkerAction α ε)
    (out : Response α ε × Runtime × Worker) : Prop where
  | fault (f : Fault) (told : out.1 = .faulted f)
  | goesOn (ending' : Option (Ending α ε)) (plain : out.1.isAttempt = false) (unended : out.1.isOver = false)
      (stage : Reckoning b outer budget base out.2.2 (d.next action out.1) ending')
      (ends : Ends base w action ending ending')
      (tells : out.1.TellsOf ending' base out.2.2.context.tally)
  | retries (e : Ending α ε) (ended : ending = some e) (told : out.1 = .attempt)
      (counted : base.countAbort e.counted = .ok out.2.2.context.tally) (left : ∀ n ∈ budget, b.attempts < n)
      (stage : Reckoning { b with attempts := b.attempts + 1 } outer budget out.2.2.context.tally out.2.2
        (d.next action out.1) (none : Option (Ending α ε)))
  | commits (result : BlockResult α ε) (told : out.1 = .ended result) (succeeds : result.isFailed = false)
      (talk : d.next action out.1 = .during b.attempts) (mode : Mode) (wroteNothing : Bool)
      (counted : base.count (.committed mode wroteNothing) = .ok out.2.2.context.tally)
  | givesUp (e : Ending α ε) (told : out.1 = .ended (.failed ⟨b.id, b.attempts⟩)) (tally : Tally)
      (aborted : base.count (.aborted e.counted) = .ok tally) (reason : GiveUpReason)
      (counted : tally.count (.gaveUp reason) = .ok out.2.2.context.tally)
      (why : reason = .exhausted ∧ budget = some b.attempts ∧ d.next action out.1 = .during b.attempts ∨
        reason = .abandoned ∧ d.next action out.1 = .stopped b.attempts)

section

variable {b : Block} {outer : List Block} {budget : Option Nat} {base : Tally} {d : Dialogue}
  {ending : Option (Ending α ε)} {w : Worker} {r : Runtime} {action : WorkerAction α ε}
  {out : Response α ε × Runtime × Worker} {p : Progress × Scope} {before : Option Conflict}

theorem tells?_of_silent {response : Response α ε} (silent : response.isSilent = true) : response.tells? = none := by
  cases response with
  | standing e => cases e <;> first | rfl | cases silent
  | replied | refused => rfl
  | _ => cases silent

namespace Reckons

/-- The dialogue does not go on with the step. -/
theorem quiet {ending' : Option (Ending α ε)} (stage : Reckoning b outer budget base out.2.2 d ending')
    (ends : Ends base w action ending ending') (answer : action.answer? out.1 = none)
    (silent : out.1.isSilent = true) : Reckons b outer budget base d ending w action out := by
  obtain ⟨attempt, question, unended⟩ :
      out.1.isAttempt = false ∧ out.1.isQuestion = false ∧ out.1.isOver = false := by
    cases told : out.1 <;> first | exact ⟨rfl, rfl, rfl⟩ | (rw [told] at silent; cases silent)
  refine .goesOn ending' attempt unended ?_ ends fun c told => by
    cases (tells?_of_silent silent).symm.trans told
  rw [Dialogue.next_of_silent attempt question answer]
  exact stage

theorem refuse (stage : Reckoning b outer budget base w d ending) (why : Refusal) :
    Reckons b outer budget base d ending w action (w.refuse why r) := by
  refine .goesOn ending rfl rfl ?_ (.same ending) nofun
  rw [Worker.refuse, Dialogue.next_refused]
  exact stage

section

variable (silent : ∀ response : Response α ε, action.answer? response = none) (blocks : w.blocks = b :: outer)

include silent blocks

/-- A segment of a client's call leaves the attempt as it was reckoned. -/
theorem client {ofBlock : Bool} (met : p.2.context.Met base none) (client : p.1.isOfBlock = false) :
    Reckons b outer budget base (.during b.attempts) none w action (w.advance ofBlock p) := by
  obtain ⟨a, s⟩ := p
  cases a with
  | answered a =>
    exact .quiet (.body none rfl blocks met) (.same none) (silent _) rfl
  | faulted f => cases ofBlock <;> exact .fault f rfl
  | standing e rest =>
    obtain ⟨event, client⟩ := Bool.or_eq_false_iff.mp client
    exact .quiet (.standing rest rfl client blocks met) (.same none) (silent _) (congrArg Bool.not event)
  | commitLost => cases client

/-- The attempt has ended in a conflict. -/
theorem conflict {s : Scope} (begun : 0 < b.attempts) (within : ∀ n ∈ budget, b.attempts ≤ n)
    (settings : s.runtime.settings.retryBudget = budget) (e : Ending α ε) (aborted : s.context.phase = .aborted)
    (counted : base.countAbort e.counted = .ok s.context.tally) (ends : Ends base w action ending (some e)) :
    Reckons b outer budget base (.during b.attempts) ending w action (w.afterConflict e.body.told s) := by
  have tells : ∀ c, some e.body.told = some c →
      ∃ e' ∈ some e, e'.body.told = c ∧ base.countAbort e'.counted = .ok s.context.tally :=
    fun c same => ⟨e, rfl, Option.some.inj same, counted⟩
  unfold afterConflict
  rw [blocks, settings]
  dsimp only
  split
  · next spent =>
    refine .goesOn (some e) rfl rfl ?_ ends tells
    rw [Dialogue.next_of_silent rfl rfl (silent _)]
    obtain ⟨n, rfl, reached⟩ := (Option.any_eq_true _ _).mp spent
    have last : b.attempts = n := (within n rfl).antisymm (of_decide_eq_true reached)
    exact .exhausted e rfl aborted counted (congrArg some last.symm)
  · next left =>
    refine .goesOn (some e) rfl rfl ?_ ends tells
    rw [settle, Dialogue.next_question begun _ (silent _)]
    refine .asking e rfl rfl aborted counted fun n some => Nat.lt_of_not_le fun reached => left ?_
    exact (Option.any_eq_true _ _).mpr ⟨n, some, decide_eq_true reached⟩

end

theorem access (blocks : w.blocks = b :: outer) (met : w.context.Met base before) {request : Request}
    (access : request.isAccess = true) :
    Reckons (α := α) (ε := ε) b outer budget base (.during b.attempts) none w (.call request)
      (w.advance false ((w.scope r).perform request)) := by
  cases before with
  | none =>
    exact .client (fun _ => rfl) blocks (Scope.met_access (s := w.scope r) met access) (Scope.isOfBlock_perform request)
  | some c =>
    -- An aborted attempt repeats its conflict and is reckoned as before.
    rw [Scope.perform_of_aborted met.1 access]
    exact .quiet (.body (some c) rfl blocks met) (.same none) rfl rfl

/-- A client's call is taken up. -/
theorem resume (h : (w.scope r).Holding) (blocks : w.blocks = b :: outer) (met : w.context.Met base none)
    {rest : Pending} (client : rest.isOfBlock = false) :
    Reckons (α := α) (ε := ε) b outer budget base (.during b.attempts) none w .resume (w.resume rest r) := by
  cases rest with
  | giveUp reason report => cases client
  | failCommit site =>
    rw [resume_eq_advance rfl]
    refine .client (fun _ => rfl) blocks met ?_
    cases site <;> first | rfl | cases client
  | extend candidate next =>
    rw [resume_eq_advance rfl]
    exact .client (fun _ => rfl) blocks (Scope.met_of_looks met (.extended _ candidate next))
      (Scope.isOfBlock_extended candidate next)
  | abort c site =>
    rw [resume_eq_advance rfl, client, Scope.resume]
    rcases h.finishAbort c site with ⟨f, faulted⟩ | ⟨s, ended, withdrawn, conflict, aborts⟩
    · rw [faulted]
      exact .fault f rfl
    · have counted := Scope.counted_of_finishAbort ended
      rw [show (w.scope r).context.tally = base from met.2] at counted
      have met' : s.context.Met base (some c) := ⟨⟨aborts met.1, conflict, withdrawn.empty⟩, counted⟩
      rw [ended]
      cases site with
      | block => cases client
      | access => exact .quiet (.body (some c) rfl blocks met') (.same none) rfl rfl
      | commit => exact .quiet (.body (some c) rfl blocks met') (.same none) rfl rfl

section

variable (h : (w.scope r).Holding) (begun : 0 < b.attempts) (within : ∀ n ∈ budget, b.attempts ≤ n)
  (settings : r.settings.retryBudget = budget) (blocks : w.blocks = b :: outer)

include h begun within settings blocks

/-- The commit of a block that has failed is taken up. -/
theorem failing (met : w.context.Met base none) (body : BodyResult α ε) (returned : body.told = .invalidCommit)
    {rest : Pending} (fails : rest = .failCommit .block ∨ rest = .abort .invalidCommit .block) :
    Reckons b outer budget base (.during b.attempts) (some ⟨body, none⟩) w .resume (w.resume rest r) := by
  rcases fails with rfl | rfl
  · exact .quiet (.failing body returned _ rfl (Or.inr rfl) blocks met) (.same _) rfl rfl
  · rw [resume_eq_advance rfl, Scope.resume]
    have same := ((w.scope r).akin_finishAbort .invalidCommit .block).settings
    rcases h.finishAbort .invalidCommit .block with ⟨f, faulted⟩ | ⟨s, ended, withdrawn, conflict, aborts⟩
    · rw [faulted]
      exact .fault f rfl
    · have counted := Scope.counted_of_finishAbort ended
      rw [ended] at same ⊢
      rw [show (w.scope r).context.tally = base from met.2, ← returned] at counted
      rw [show AbortSite.block.report .invalidCommit = .commitLost from rfl, advance, ← returned]
      exact .conflict (fun _ => rfl) blocks begun within ((congrArg Settings.retryBudget same).trans settings)
        ⟨body, none⟩ (aborts met.1) counted (.same _)

section

variable (inside : w.inBody = true)

include inside

theorem leaveBy (met : w.context.Met base before) {body : BodyResult α ε} {result : BlockResult α ε}
    (returned : body.committed? = some result) :
    Reckons b outer budget base (.during b.attempts) none w (.leave body) (w.leaveBy result r) := by
  have told : body.told = .invalidCommit := by
    cases body with
    | conflict c => cases returned
    | _ => rfl
  have succeeds : result.isFailed = false := by
    cases body <;> cases returned <;> rfl
  cases before with
  | some c =>
    -- A commit of an aborted attempt fails at once, and tells of no other conflict than its own.
    have left : w.leaveBy result r = w.afterConflict body.told (w.scope r) := by
      rw [told, Worker.leaveBy, Scope.commit_of_aborted met.1]
    rw [left]
    exact .conflict (fun _ => rfl) blocks begun within settings ⟨body, some c⟩ met.1.phase met.2
      (.now ⟨body, some c⟩ rfl inside met)
  | none =>
    have commits := h.commits met.1 .block
    have counts := Scope.CountsCommit.commit (s := w.scope r) met.1 .block
    have segment := Scope.Segment.commit h .block
    obtain ⟨a, s, split⟩ : ∃ a s, (w.scope r).commit .block = (a, s) := ⟨_, _, rfl⟩
    rw [split] at commits counts segment
    have base_ : (w.scope r).context.tally = base := met.2
    cases counts with
    | counted wroteNothing verdict counted =>
      cases verdict
      rw [leaveBy_of_verdict split]
      rw [base_] at counted
      exact .commits result rfl succeeds (Dialogue.next_of_silent rfl rfl rfl) _ wroteNothing counted
    | still unlike same =>
      cases commits with
      | same kept told' =>
        rcases told' with ⟨f, faulted⟩ | ⟨e, stands⟩
        · cases faulted
          rw [leaveBy_of_fault split]
          exact .fault f rfl
        · cases stands
          rw [leaveBy_of_standing split]
          exact .quiet
            (.failing body told _ rfl (Or.inl rfl) blocks ⟨kept.phase.trans met.1, same.trans base_⟩)
            (.now ⟨body, none⟩ rfl inside met) rfl
            (congrArg Bool.not (segment.standing e _ rfl).2.1)
      | committed committed told' =>
        rcases told' with verdict | faulted
        · exact absurd verdict unlike
        · cases faulted
          rw [leaveBy_of_fault split]
          exact .fault _ rfl
      | stopped f stopped faulted =>
        cases faulted
        rw [leaveBy_of_fault split]
        exact .fault f rfl

theorem leaveOnConflict (met : w.context.Met base before) (c : Conflict) :
    Reckons (α := α) (ε := ε) b outer budget base (.during b.attempts) none w (.leave (.conflict c))
      (w.leaveOnConflict c r) := by
  have ends : Ends base w (.leave (.conflict c) : WorkerAction α ε) none (some ⟨.conflict c, before⟩) :=
    .now ⟨.conflict c, before⟩ rfl inside met
  cases before with
  | some c' =>
    -- The engine has counted the attempt before, whichever conflict the body names.
    have left : w.leaveOnConflict (α := α) (ε := ε) c r = w.afterConflict c (w.scope r) := by
      unfold Worker.leaveOnConflict
      dsimp only
      rw [if_neg (by rw [show (w.scope r).context.phase = _ from met.1.phase]; exact Phase.noConfusion)]
      dsimp only
      rw [Scope.rollback_of_aborted ⟨met.1.phase, met.1.conflict, met.1.writes⟩]
    rw [left]
    exact .conflict (fun _ => rfl) blocks begun within settings ⟨.conflict c, some c'⟩ met.1.phase met.2 ends
  | none =>
    have active : (w.scope r).context.phase = .active := met.1
    unfold Worker.leaveOnConflict
    dsimp only
    rw [if_pos active]
    split
    · next f _ => exact .fault f rfl
    · next tally counted =>
      have same := (Scope.akin_rollback ⟨r, { w.context with tally }⟩).settings
      have kept := Scope.tally_rollback ⟨r, { w.context with tally }⟩
      obtain ⟨s, rolled, withdrawn, -, aborts⟩ := h.rollback_counted tally (w.scope r).context.lastConflict
      rw [show Scope.rollback ⟨r, { w.context with tally }⟩ = (.ok (), s) from rolled] at same kept
      rw [show (w.scope r).context.tally = base from met.2, ← show s.context.tally = tally from kept] at counted
      rw [rolled]
      exact .conflict (fun _ => rfl) blocks begun within ((congrArg Settings.retryBudget same).trans settings)
        ⟨.conflict c, none⟩ (aborts active) counted ends

theorem leave (met : w.context.Met base before) (body : BodyResult α ε) :
    Reckons b outer budget base (.during b.attempts) none w (.leave body) (w.leave body r) := by
  cases body with
  | value a => exact .leaveBy h begun within settings blocks inside met rfl
  | failure e => exact .leaveBy h begun within settings blocks inside met rfl
  | conflict c => exact .leaveOnConflict h begun within settings blocks inside met c

end

end

/-- The caller's answer begins another attempt, or the block is about to give up. -/
theorem decide (h : (w.scope r).Holding) (begun : 0 < b.attempts) (unasked : b.question = none) (e : Ending α ε)
    (blocks : w.blocks = { b with question := some e.body.told } :: outer) (aborted : w.context.phase = .aborted)
    (counted : base.countAbort e.counted = .ok w.context.tally) (left : ∀ n ∈ budget, b.attempts < n)
    (control : Control) :
    Reckons b outer budget base (.asking b.attempts) (some e) w (.decide control)
      (w.decide { b with question := some e.body.told } e.body.told control r) := by
  cases control with
  | stop =>
    refine .goesOn (some e) rfl rfl ?_ (.same _) fun c tells => ⟨e, rfl, Option.some.inj tells, counted⟩
    exact .abandoned e rfl aborted counted
  | retry =>
    have kept := (w.scope r).tally_start b.id b.mode
    obtain ⟨s, started, withdrawn, active⟩ := h.starts b.id b.mode
    rw [started] at kept
    simp only [Worker.decide, scope, blocks, List.tail_cons] at started ⊢
    rw [started]
    refine .retries e rfl rfl ?_ left ?_
    · rw [counted]
      exact congrArg Except.ok kept.symm
    · show Reckoning { b with attempts := b.attempts + 1 } outer budget _ _
        ((Dialogue.asking b.attempts).next (.decide .retry : WorkerAction α ε) .attempt) none
      rw [Dialogue.next_retry begun]
      exact .body none rfl (by rw [← unasked]; rfl) ⟨active, rfl⟩

/-- A block that gives up counts why. -/
theorem giveUp (e : Ending α ε) {reason : GiveUpReason} (counted : base.countAbort e.counted = .ok w.context.tally)
    (why : reason = .exhausted ∧ budget = some b.attempts ∧ d = .during b.attempts ∨
      reason = .abandoned ∧ d = .stopped b.attempts) :
    Reckons b outer budget base d (some e) w .resume (w.resume (.giveUp reason ⟨b.id, b.attempts⟩) r) := by
  unfold Worker.resume
  rw [Scope.resume]
  rcases (w.scope r).finishGiveUp_eq reason with ⟨f, faulted⟩ | ⟨tally, gaveUp, ended⟩
  · rw [faulted]
    exact .fault f rfl
  · rw [ended]
    refine .givesUp e rfl w.context.tally counted reason gaveUp ?_
    rwa [Dialogue.next_of_silent rfl rfl rfl]

end Reckons

/-- What a step of a block comes to. -/
theorem Reckoning.step (stage : Reckoning b outer budget base w d ending) (h : (w.scope r).Holding)
    (begun : 0 < b.attempts) (unasked : b.question = none) (within : ∀ n ∈ budget, b.attempts ≤ n)
    (settings : r.settings.retryBudget = budget) (ofBlock : action.isOfBlock = true) :
    Reckons b outer budget base d ending w action (w.step r action) := by
  have dispatch := dispatch_step w r action
  generalize w.step r action = out at dispatch ⊢
  cases dispatch with
  | refuse => exact .refuse stage _
  | call idle request =>
    cases stage with
    | body before free blocks met => exact .access blocks met ofBlock
    | asking e _ blocks => simp [isBusy, asking?, blocks] at idle
    | standing _ waiting | failing _ _ _ waiting | exhausted _ waiting | abandoned _ waiting =>
      cases waiting.symm.trans (free_of_not_isBusy idle)
  | resume rest waiting =>
    cases stage with
    | body _ free | asking _ free => cases waiting.symm.trans free
    | standing rest' waiting' client blocks met =>
      cases waiting.symm.trans waiting'
      exact .resume h blocks met client
    | failing body returned rest' waiting' fails blocks met =>
      cases waiting.symm.trans waiting'
      exact .failing h begun within settings blocks met body returned fails
    | exhausted e waiting' _ counted last =>
      cases waiting.symm.trans waiting'
      exact .giveUp e counted (Or.inl ⟨rfl, last, rfl⟩)
    | abandoned e waiting' _ counted =>
      cases waiting.symm.trans waiting'
      exact .giveUp e counted (Or.inr ⟨rfl, rfl⟩)
  | leave inside body =>
    cases stage with
    | body before free blocks met => exact .leave h begun within settings blocks inside met body
    | asking e _ blocks => simp [inBody, isBusy, asking?, blocks] at inside
    | standing _ waiting | failing _ _ _ waiting | exhausted _ waiting | abandoned _ waiting =>
      cases waiting.symm.trans (free_of_inBody inside)
  | decide free b' c asking control =>
    cases stage with
    | body _ _ blocks => simp [asking?, blocks, unasked] at asking
    | asking e _ blocks aborted counted left =>
      have asks : some (({ b with question := some e.body.told } : Block), e.body.told) = some (b', c) := by
        rw [← asking, asking?, blocks]
        rfl
      cases asks
      exact .decide h begun unasked e blocks aborted counted left control
    | standing _ waiting | failing _ _ _ waiting | exhausted _ waiting | abandoned _ waiting =>
      cases waiting.symm.trans free
  | enter | unwind => cases ofBlock

/-- A block that is entered begins with the first attempt of its body. -/
theorem Reckoning.enter (budget : Option Nat) (h : (w.scope r).Holding) {block : Nat} {mode : Mode}
    (entered : (w.step (α := α) (ε := ε) r (.enter block mode)).1 = .attempt) :
    let w' := (w.step (α := α) (ε := ε) r (.enter block mode)).2.2
    w'.context.tally = w.context.tally ∧
      Reckoning ⟨block, mode, 1, none⟩ w.blocks budget w.context.tally w' (.during 1) (none : Option (Ending α ε)) := by
  have dispatch := dispatch_step (α := α) (ε := ε) w r (.enter block mode)
  generalize w.step r (.enter block mode) = out at dispatch entered ⊢
  cases dispatch with
  | refuse => cases entered
  | enter =>
    have kept := (w.scope r).tally_start block mode
    obtain ⟨s, started, withdrawn, active⟩ := h.starts block mode
    rw [started] at kept
    unfold Worker.enter
    rw [started]
    exact ⟨kept, .body none rfl rfl ⟨active, kept⟩⟩

end

end Worker

end TransactionalMemory
