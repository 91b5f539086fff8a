import Mathlib.Tactic.Simps.Basic
import TransactionalMemory.Proofs.Counters

/-! # Declarations that a block only reads

A block that is declared to only read is treated like any other regular block; only a counter tells.  So what
a call does can be seen without the declarations: the call does the same on a state from which they have been
taken out (`undeclared`), together with the counter that they are counted in.

The counter has a size too, and a full one is a fault.  That it never decides about a fault, and neither
whether there is anything to hand over, is due to the commits: those that are declared are counted as commits as
well (`Tally.Fair`).
-/

namespace TransactionalMemory

variable {α ε : Type}

/-! ## Taking the declarations out -/

/-- The policy without the declaration. -/
def Mode.undeclared : Mode → Mode
  | readOnlyRegular => regular
  | mode => mode

@[simp] theorem Mode.isElastic_undeclared (mode : Mode) : mode.undeclared.isElastic = mode.isElastic := by
  cases mode <;> rfl

namespace Tally

/-- The counters without the one for declared commits. -/
@[simps] def undeclared (t : Tally) : Tally := { t with declaredReadOnly := 0 }

/-- Commits that are counted as declared are counted as commits. -/
def Fair (t : Tally) : Prop := t.declaredReadOnly ≤ t.commits

variable {t t' : Tally}

theorem Fair.zero : Fair {} := Nat.le_refl 0

theorem Fair.fits_undeclared (fair : t.Fair) : t.undeclared.fits = t.fits := by
  have bounded : t.commits < wordRange → t.declaredReadOnly < wordRange := fair.trans_lt
  have zero : 0 < wordRange := by decide
  rw [Bool.eq_iff_iff]
  simp only [fits, undeclared_commits, undeclared_readOnly, undeclared_declaredReadOnly, undeclared_elastic,
    undeclared_aborts, undeclared_exhausted, undeclared_abandoned, Bool.and_eq_true, decide_eq_true_eq]
  tauto

theorem Fair.checked_undeclared (fair : t.Fair) : t.undeclared.checked = t.checked.map undeclared := by
  unfold checked
  rw [fair.fits_undeclared]
  split <;> rfl

theorem Fair.eq_empty_iff (fair : t.Fair) : t.undeclared = {} ↔ t = {} := by
  constructor
  · intro empty
    have none : t.commits = 0 := congrArg commits empty
    have declared : t.declaredReadOnly = 0 := Nat.le_zero.mp (none ▸ fair)
    rw [← empty, undeclared, ← declared]
  · rintro rfl
    rfl

theorem Fair.of_checked (fair : t.Fair) (counted : t.checked = .ok t') : t'.Fair :=
  eq_of_checked counted ▸ fair

theorem Fair.committed (fair : t.Fair) (mode : Mode) (wroteNothing : Bool) : Fair
    { t with
      commits := t.commits + 1
      readOnly := t.readOnly + if wroteNothing then 1 else 0
      declaredReadOnly := t.declaredReadOnly + if mode = .readOnlyRegular then 1 else 0
      elastic := t.elastic + if mode = .elastic then 1 else 0 } := by
  show t.declaredReadOnly + _ ≤ t.commits + 1
  refine Nat.add_le_add fair ?_
  split <;> decide

theorem Fair.countCommit (fair : t.Fair) (mode : Mode) (wroteNothing : Bool) :
    t.undeclared.countCommit mode.undeclared wroteNothing =
      (t.countCommit mode wroteNothing).map undeclared := by
  rw [Tally.countCommit, Tally.countCommit, ← (fair.committed mode wroteNothing).checked_undeclared]
  cases mode <;> rfl

theorem Fair.countAbort (fair : t.Fair) (c : Conflict) :
    t.undeclared.countAbort c = (t.countAbort c).map undeclared :=
  Fair.checked_undeclared (t := { t with aborts := t.aborts.set c.index (t.abortsFor c + 1) }) fair

theorem Fair.countExhausted (fair : t.Fair) : t.undeclared.countExhausted = t.countExhausted.map undeclared :=
  Fair.checked_undeclared (t := { t with exhausted := t.exhausted + 1 }) fair

theorem Fair.countAbandoned (fair : t.Fair) : t.undeclared.countAbandoned = t.countAbandoned.map undeclared :=
  Fair.checked_undeclared (t := { t with abandoned := t.abandoned + 1 }) fair

theorem Fair.sum {a b : Tally} (fair : a.Fair) (fair' : b.Fair) : Fair
    { commits := a.commits + b.commits
      readOnly := a.readOnly + b.readOnly
      declaredReadOnly := a.declaredReadOnly + b.declaredReadOnly
      elastic := a.elastic + b.elastic
      aborts := a.aborts.zipWith (· + ·) b.aborts
      exhausted := a.exhausted + b.exhausted
      abandoned := a.abandoned + b.abandoned } :=
  Nat.add_le_add fair fair'

theorem Fair.add {a b : Tally} (fair : a.Fair) (fair' : b.Fair) :
    a.undeclared.add b.undeclared = (a.add b).map undeclared :=
  (fair.sum fair').checked_undeclared

theorem Fair.counts (fair : t.Fair) (counts : t.Counts t') : t'.Fair := by
  cases counts with
  | nothing => exact fair
  | handedOver => exact .zero
  | commit mode wroteNothing counted => exact (fair.committed mode wroteNothing).of_checked counted
  | abort c counted | exhausted counted | abandoned counted => exact Fair.of_checked (by exact fair) counted

end Tally

@[simps] def Context.undeclared (c : Context) : Context :=
  { c with mode := c.mode.undeclared, tally := c.tally.undeclared }

@[simps] def Runtime.undeclared (r : Runtime) : Runtime := { r with published := r.published.undeclared }

theorem Runtime.allocateOwner_undeclared (r : Runtime) :
    r.undeclared.allocateOwner = Prod.map id undeclared r.allocateOwner := by
  unfold allocateOwner
  simp only [undeclared_nextOwner]
  split <;> rfl

@[simps] def Scope.undeclared (s : Scope) : Scope := ⟨s.runtime.undeclared, s.context.undeclared⟩

def Request.undeclared : Request → Request
  | .start block mode => .start block mode.undeclared
  | request => request

@[simp] theorem Context.isFast_undeclared (c : Context) : c.undeclared.isFast = c.isFast := by
  simp [isFast, undeclared]

@[simp] theorem Context.logRead_undeclared (c : Context) (e : ReadEntry) :
    c.undeclared.logRead e = (c.logRead e).undeclared := by
  unfold logRead
  rw [isFast_undeclared]
  split <;> rfl

/-! ## Calls -/

namespace Scope

variable {s : Scope}

section

variable (s : Scope) (l : Location) (kind : Kind) (slot stamp : Nat) (v : Value)

theorem releaseWrites_undeclared :
    s.undeclared.releaseWrites = Prod.map id undeclared s.releaseWrites := rfl

theorem start_undeclared (block : Nat) (mode : Mode) :
    s.undeclared.start block mode.undeclared = Prod.map id undeclared (s.start block mode) := by
  unfold start
  rw [releaseWrites_undeclared]
  simp only [undeclared_context, Context.undeclared_writes]
  split
  · rfl
  · rcases s.releaseWrites with ⟨_ | _, _⟩ <;> rfl

theorem rollback_undeclared : s.undeclared.rollback = Prod.map id undeclared s.rollback := by
  unfold rollback
  rw [releaseWrites_undeclared]
  simp only [undeclared_context, Context.undeclared_phase]
  split
  · rcases s.releaseWrites with ⟨_ | _, _⟩ <;> rfl
  · rfl

/-! ### Accesses -/

theorem finishRead_undeclared :
    s.undeclared.finishRead l slot stamp v = Prod.map id undeclared (s.finishRead l slot stamp v) := by
  unfold finishRead
  simp only [undeclared_context, undeclared_runtime, Context.logRead_undeclared, Context.undeclared_upper]
  split
  · rfl
  · rfl

theorem slide_undeclared :
    s.undeclared.slide l slot stamp v = Prod.map id undeclared (s.slide l slot stamp v) := by
  unfold slide
  simp only [undeclared_context, undeclared_runtime, Context.undeclared_window, Context.undeclared_owner,
    Context.undeclared_writes, Runtime.undeclared_table, Runtime.undeclared_clock]
  split
  · rfl
  · rfl
  · exact finishRead_undeclared { s with context := { s.context with upper := _ } } ..

theorem tryExtend_undeclared (next : AfterExtension) {failed failed' : Scope → Progress × Scope}
    (same : failed' s.undeclared = Prod.map id undeclared (failed s)) :
    s.undeclared.tryExtend next failed' = Prod.map id undeclared (s.tryExtend next failed) := by
  unfold tryExtend
  rw [same]
  simp only [undeclared_context, undeclared_runtime, Context.undeclared_reads, Context.undeclared_owner,
    Context.undeclared_writes, Runtime.undeclared_table]
  split <;> rfl

theorem extend_undeclared : s.undeclared.extend = Prod.map id undeclared s.extend :=
  tryExtend_undeclared s .answer rfl

theorem loadHeld_undeclared : s.undeclared.loadHeld l kind = Prod.map id undeclared (s.loadHeld l kind) := by
  unfold loadHeld
  simp only [undeclared_runtime, Runtime.undeclared_memory]
  split <;> rfl

theorem loadFree_undeclared :
    s.undeclared.loadFree l kind slot = Prod.map id undeclared (s.loadFree l kind slot) := by
  rw [loadFree_eq, loadFree_eq]
  simp only [undeclared_context, undeclared_runtime, Context.undeclared_owner, Context.undeclared_upper,
    Context.isFast_undeclared, Runtime.undeclared_table, Runtime.undeclared_memory]
  split
  · rfl
  · rfl
  · rfl
  · split
    · rfl
    · split
      · exact finishRead_undeclared ..
      · split
        · exact slide_undeclared ..
        · exact tryExtend_undeclared s _ rfl

theorem obstacle?_undeclared : s.undeclared.obstacle? = s.obstacle? := rfl

theorem load_undeclared : s.undeclared.load l kind = Prod.map id undeclared (s.load l kind) := by
  unfold load
  simp only [obstacle?_undeclared, undeclared_context, undeclared_runtime, Context.undeclared_writes,
    Context.undeclared_upper, Runtime.undeclared_table]
  split
  · rfl
  · split
    · exact loadFree_undeclared ..
    · split
      · rfl
      · split
        · exact loadHeld_undeclared ..
        · exact tryExtend_undeclared s _ rfl

theorem probe_undeclared : s.undeclared.probe l = Prod.map id undeclared (s.probe l) := by
  -- A slot is named before the two sides are compared, so that nobody computes it.
  obtain ⟨slot, here⟩ : ∃ slot, s.runtime.table.slotOf l = slot := ⟨_, rfl⟩
  unfold probe
  rw [obstacle?_undeclared, undeclared_runtime, Runtime.undeclared_table, here, undeclared_context,
    Context.undeclared_owner]
  split
  · rfl
  · split <;> rfl

theorem read_undeclared : s.undeclared.read l kind = Prod.map id undeclared (s.read l kind) := by
  unfold read
  rw [probe_undeclared]
  rcases s.probe l with ⟨progress, s'⟩
  cases progress with
  | answered reply =>
    cases reply with
    | done => exact load_undeclared ..
    | _ => rfl
  | _ => rfl

theorem writeTaken_undeclared :
    s.undeclared.writeTaken l slot stamp v = Prod.map id undeclared (s.writeTaken l slot stamp v) := by
  unfold writeTaken
  simp only [undeclared_context, undeclared_runtime, Context.undeclared_writes, Context.undeclared_owner,
    Context.undeclared_upper, Context.isFast_undeclared, Context.undeclared_window, Context.undeclared_reads,
    Context.undeclared_mode, Context.hasRead, Mode.isElastic_undeclared, Runtime.undeclared_table]
  split
  · rfl
  · split
    · rfl
    · split
      · split
        · rfl
        · rfl
        · split <;> rfl
      · rfl

theorem write_undeclared : s.undeclared.write l v = Prod.map id undeclared (s.write l v) := by
  obtain ⟨slot, here⟩ : ∃ slot, s.runtime.table.slotOf l = slot := ⟨_, rfl⟩
  unfold write
  rw [obstacle?_undeclared, undeclared_runtime, Runtime.undeclared_table, here]
  simp only [undeclared_context, Context.undeclared_writes, Context.undeclared_owner]
  split
  · rfl
  · split
    · rfl
    · rfl
    · split <;> rfl
    · exact writeTaken_undeclared { s with runtime := { s.runtime with table := _ } } ..

theorem afterExtension_undeclared (next : AfterExtension) :
    s.undeclared.afterExtension next = Prod.map id undeclared (s.afterExtension next) := by
  cases next with
  | answer => rfl
  | loadHeld l kind => exact s.loadHeld_undeclared l kind
  | recheck l kind slot stamp v =>
    simp only [afterExtension_recheck, undeclared_runtime, Runtime.undeclared_table]
    split
    · rfl
    · split
      · exact s.finishRead_undeclared l slot stamp v
      · exact s.loadFree_undeclared l kind slot

theorem silent_undeclared (p : Except Fault Unit × Scope) :
    silent (Prod.map id undeclared p) = Prod.map id undeclared (silent p) := by
  rcases p with ⟨_ | _, _⟩ <;> rfl

end

/-! ### Commits, aborts and counters -/

variable (fair : s.context.tally.Fair)

include fair

theorem finishCommit_undeclared (wroteNothing : Bool) :
    s.undeclared.finishCommit wroteNothing = Prod.map id undeclared (s.finishCommit wroteNothing) := by
  unfold finishCommit
  -- Here, and nowhere else, the declaration is looked at: it is counted.
  simp only [undeclared_context, Context.undeclared_tally, Context.undeclared_mode, fair.countCommit]
  rcases s.context.tally.countCommit s.context.mode wroteNothing with _ | _ <;> rfl

theorem storeWrites_undeclared (stamp : Nat) :
    s.undeclared.storeWrites stamp = Prod.map id undeclared (s.storeWrites stamp) := by
  unfold storeWrites
  simp only [undeclared_context, undeclared_runtime, Context.undeclared_writes, Runtime.undeclared_table,
    Runtime.undeclared_memory]
  rcases s.context.writes.commit stamp s.runtime.table s.runtime.memory with ⟨_ | _, writes, table, memory⟩
  · rfl
  · exact finishCommit_undeclared (s := ⟨{ s.runtime with table, memory }, { s.context with writes }⟩) fair false

theorem commitAt_undeclared (stamp : Nat) (site : AbortSite) :
    s.undeclared.commitAt stamp site = Prod.map id undeclared (s.commitAt stamp site) := by
  unfold commitAt
  simp only [undeclared_context, undeclared_runtime, Context.undeclared_writes, Context.undeclared_lower,
    Context.undeclared_reads, Context.undeclared_owner, Runtime.undeclared_table]
  split
  · rfl
  · split
    · exact storeWrites_undeclared fair stamp
    · split
      · rfl
      · exact storeWrites_undeclared fair stamp
      · rfl

theorem commit_undeclared (site : AbortSite) :
    s.undeclared.commit site = Prod.map id undeclared (s.commit site) := by
  unfold commit
  simp only [undeclared_context, undeclared_runtime, Context.undeclared_writes, Context.undeclared_phase,
    Runtime.undeclared_clock]
  split
  · rfl
  · rfl
  · rfl
  · split
    · exact finishCommit_undeclared fair true
    · rcases s.runtime.clock.advance with ⟨_ | stamp, clock⟩
      · rfl
      · exact commitAt_undeclared (s := ⟨{ s.runtime with clock }, s.context⟩) fair stamp site

theorem finishAbort_undeclared (c : Conflict) (site : AbortSite) :
    s.undeclared.finishAbort c site = Prod.map id undeclared (s.finishAbort c site) := by
  unfold finishAbort
  rw [undeclared_context, Context.undeclared_tally, fair.countAbort]
  rcases s.context.tally.countAbort c with _ | tally
  · rfl
  · have rolled : rollback { s.undeclared with
          context := { s.context.undeclared with tally := tally.undeclared, lastConflict := some c } } =
        Prod.map id undeclared (rollback { s with context := { s.context with tally, lastConflict := some c } }) :=
      rollback_undeclared { s with context := { s.context with tally, lastConflict := some c } }
    dsimp only [Except.map] at rolled ⊢
    rw [rolled]
    rcases rollback ⟨s.runtime, _⟩ with ⟨_ | _, _⟩
    · rfl
    · cases site <;> rfl

theorem finishGiveUp_undeclared (reason : GiveUpReason) :
    s.undeclared.finishGiveUp reason = Prod.map id undeclared (s.finishGiveUp reason) := by
  unfold finishGiveUp
  cases reason with
  | exhausted =>
    simp only [undeclared_context, Context.undeclared_tally, fair.countExhausted]
    rcases s.context.tally.countExhausted with _ | _ <;> rfl
  | abandoned =>
    simp only [undeclared_context, Context.undeclared_tally, fair.countAbandoned]
    rcases s.context.tally.countAbandoned with _ | _ <;> rfl

theorem publish_undeclared (fair' : s.runtime.published.Fair) :
    s.undeclared.publish = Prod.map id undeclared s.publish := by
  -- A fair tally without its declared commits is empty only if it is empty with them, so whether there is anything to
  -- hand over is the same.
  unfold publish Runtime.publish
  simp only [undeclared_context, undeclared_runtime, Context.undeclared_tally, Runtime.undeclared_published,
    fair.eq_empty_iff, fair'.add fair]
  split
  · rfl
  · rcases s.runtime.published.add s.context.tally with _ | _ <;> rfl

/-! ### Any call -/

theorem perform_undeclared (fair' : s.runtime.published.Fair) (request : Request) :
    s.undeclared.perform request.undeclared = Prod.map id undeclared (s.perform request) := by
  cases request with
  | start block mode => exact (congrArg silent (s.start_undeclared block mode)).trans (silent_undeclared _)
  | probe l => exact s.probe_undeclared l
  | load l kind => exact s.load_undeclared l kind
  | read l kind => exact s.read_undeclared l kind
  | write l v => exact s.write_undeclared l v
  | commit => exact commit_undeclared fair _
  | rollback => exact (congrArg silent s.rollback_undeclared).trans (silent_undeclared _)
  | extend => exact s.extend_undeclared
  | publish => exact (congrArg silent (publish_undeclared fair fair')).trans (silent_undeclared _)

theorem resume_undeclared (rest : Pending) :
    s.undeclared.resume rest = Prod.map id undeclared (s.resume rest) := by
  cases rest with
  | abort c site => exact finishAbort_undeclared fair c site
  | failCommit site => rfl
  | extend candidate next =>
    exact afterExtension_undeclared { s with context := { s.context with upper := candidate } } next
  | giveUp reason report =>
    exact (congrArg silent (finishGiveUp_undeclared fair reason)).trans (silent_undeclared _)

end Scope

/-! ## Workers -/

@[simps] def Block.undeclared (b : Block) : Block := { b with mode := b.mode.undeclared }

@[simps] def Worker.undeclared (w : Worker) : Worker :=
  { w with context := w.context.undeclared, blocks := w.blocks.map Block.undeclared }

/-- The action with no block declared to only read. -/
def WorkerAction.undeclared : WorkerAction α ε → WorkerAction α ε
  | .call request => .call request.undeclared
  | .enter block mode => .enter block mode.undeclared
  | action => action

namespace Worker

/-- What a step comes to, seen without declarations. -/
abbrev plain (out : Response α ε × Runtime × Worker) : Response α ε × Runtime × Worker :=
  Prod.map id (Prod.map Runtime.undeclared undeclared) out

section

variable (w : Worker) (r : Runtime) (s : Scope)

theorem scope_undeclared : w.undeclared.scope r.undeclared = (w.scope r).undeclared := rfl

theorem asking?_undeclared : w.undeclared.asking? = w.asking?.map (Prod.map Block.undeclared id) := by
  unfold asking?
  rcases w with ⟨_, _, _ | ⟨⟨_, _, _, _ | c⟩, rest⟩⟩ <;> rfl

@[simp] theorem isBusy_undeclared : w.undeclared.isBusy = w.isBusy := by
  unfold isBusy
  rw [asking?_undeclared, Option.isSome_map]
  rfl

@[simp] theorem inBody_undeclared : w.undeclared.inBody = w.inBody := by
  unfold inBody
  rw [isBusy_undeclared, undeclared_blocks, List.isEmpty_map]

@[simp] theorem atClient_undeclared : w.undeclared.atClient = w.atClient := by
  unfold atClient
  rw [undeclared_pending, undeclared_blocks, List.isEmpty_map]

theorem close_undeclared (response : Response α ε) :
    w.undeclared.close response s.undeclared = plain (w.close response s) := by
  rcases w with ⟨_, _, _ | _⟩ <;> rfl

theorem giveUp_undeclared (b : Block) (reason : GiveUpReason) (c : Conflict) :
    w.undeclared.giveUp (α := α) (ε := ε) b.undeclared reason c s.undeclared =
      plain (w.giveUp b reason c s) := rfl

theorem afterConflict_undeclared (c : Conflict) :
    w.undeclared.afterConflict (α := α) (ε := ε) c s.undeclared = plain (w.afterConflict c s) := by
  rcases w with ⟨context, pending, _ | ⟨b, rest⟩⟩
  · rfl
  · simp only [afterConflict, undeclared_blocks, List.map_cons, Block.undeclared_attempts,
      Scope.undeclared_runtime, Runtime.undeclared_settings]
    split <;> rfl

theorem advance_undeclared (ofBlock : Bool) (p : Progress × Scope) :
    w.undeclared.advance (α := α) (ε := ε) ofBlock (Prod.map id Scope.undeclared p) =
      plain (w.advance ofBlock p) := by
  rcases p with ⟨progress, s⟩
  cases progress with
  | answered reply => rfl
  | faulted f =>
    cases ofBlock with
    | true => exact w.close_undeclared s _
    | false => rfl
  | standing e rest => rfl
  | commitLost => exact w.afterConflict_undeclared s _

theorem enter_undeclared (block : Nat) (mode : Mode) :
    w.undeclared.enter (α := α) (ε := ε) block mode.undeclared r.undeclared = plain (w.enter block mode r) := by
  unfold enter
  rw [scope_undeclared, Scope.start_undeclared]
  rcases (w.scope r).start block mode with ⟨_ | _, _⟩ <;> rfl

theorem unwind_undeclared :
    w.undeclared.unwind (α := α) (ε := ε) r.undeclared = plain (w.unwind r) := by
  unfold unwind
  rw [scope_undeclared, Scope.rollback_undeclared]
  rcases (w.scope r).rollback with ⟨_ | _, s⟩ <;> exact w.close_undeclared s _

theorem decide_undeclared (b : Block) (c : Conflict) (control : Control) :
    w.undeclared.decide (α := α) (ε := ε) b.undeclared c control r.undeclared =
      plain (w.decide b c control r) := by
  cases control with
  | stop => exact w.giveUp_undeclared (w.scope r) b _ c
  | retry =>
    unfold decide
    dsimp only
    -- The workers that start again, the one without declarations and the other one.
    generalize bared : (⟨w.undeclared.context, w.undeclared.pending, ⟨b.undeclared.id, b.undeclared.mode,
      b.undeclared.attempts + 1, none⟩ :: w.undeclared.blocks.tail⟩ : Worker) = bare
    generalize unbared : (⟨w.context, w.pending, ⟨b.id, b.mode, b.attempts + 1, none⟩ :: w.blocks.tail⟩ :
      Worker) = again
    have same : bare = again.undeclared := by
      simp only [← bared, ← unbared, undeclared, Block.undeclared, List.map_cons, List.map_tail]
    rw [same, scope_undeclared, b.undeclared_mode, b.undeclared_id, Scope.start_undeclared]
    rcases (again.scope r).start b.id b.mode with ⟨_ | _, s⟩
    · exact again.close_undeclared s _
    · rfl

end

variable {w : Worker} {r : Runtime} (fair : w.context.tally.Fair)

include fair

theorem resume_undeclared (rest : Pending) :
    w.undeclared.resume (α := α) (ε := ε) rest r.undeclared = plain (w.resume rest r) := by
  have resumed := Scope.resume_undeclared (s := w.scope r) fair rest
  unfold resume
  rw [scope_undeclared, resumed]
  rcases (w.scope r).resume rest with ⟨progress, s⟩
  cases rest with
  | giveUp reason report =>
    cases progress with
    | answered reply => exact w.close_undeclared s _
    | faulted f => exact w.advance_undeclared _ (.faulted f, s)
    | standing e rest => rfl
    | commitLost => exact w.advance_undeclared _ (.commitLost, s)
  | _ => exact w.advance_undeclared _ (progress, s)

theorem leaveBy_undeclared (result : BlockResult α ε) :
    w.undeclared.leaveBy result r.undeclared = plain (w.leaveBy result r) := by
  unfold leaveBy
  rw [scope_undeclared, Scope.commit_undeclared fair]
  rcases (w.scope r).commit .block with ⟨progress, s⟩
  cases progress with
  | answered reply =>
    cases reply with
    | verdict committed =>
      cases committed with
      | true => exact w.close_undeclared s _
      | false => exact w.afterConflict_undeclared s _
    | _ => exact w.afterConflict_undeclared s _
  | faulted f => exact w.advance_undeclared true (.faulted f, s)
  | standing e rest => rfl
  | commitLost => exact w.advance_undeclared true (.commitLost, s)

theorem leaveOnConflict_undeclared (c : Conflict) :
    w.undeclared.leaveOnConflict (α := α) (ε := ε) c r.undeclared = plain (w.leaveOnConflict c r) := by
  -- Whether the attempt is still active decides if the conflict is counted, and a declaration does not change that.
  have counted : (if (w.undeclared.scope r.undeclared).context.phase = .active then
        (w.undeclared.scope r.undeclared).context.tally.countAbort c
        else .ok (w.undeclared.scope r.undeclared).context.tally) =
      (if (w.scope r).context.phase = .active then (w.scope r).context.tally.countAbort c
        else .ok (w.scope r).context.tally).map Tally.undeclared := by
    rw [show (w.undeclared.scope r.undeclared).context.tally.countAbort c = _ from fair.countAbort c]
    rw [show (w.undeclared.scope r.undeclared).context.phase = (w.scope r).context.phase from rfl]
    split <;> rfl
  unfold leaveOnConflict
  dsimp only
  rw [counted]
  generalize (if (w.scope r).context.phase = .active then (w.scope r).context.tally.countAbort c
    else .ok (w.scope r).context.tally) = counted
  cases counted with
  | error f => exact w.close_undeclared (w.scope r) _
  | ok tally =>
    have rolled : Scope.rollback { w.undeclared.scope r.undeclared with
          context := { (w.undeclared.scope r.undeclared).context with tally := tally.undeclared } } =
        Prod.map id Scope.undeclared
          (Scope.rollback { w.scope r with context := { (w.scope r).context with tally } }) :=
      Scope.rollback_undeclared { w.scope r with context := { (w.scope r).context with tally } }
    dsimp only [Except.map] at rolled ⊢
    rw [rolled]
    rcases Scope.rollback ⟨(w.scope r).runtime, _⟩ with ⟨_ | _, s⟩
    · exact w.close_undeclared s _
    · exact w.afterConflict_undeclared s c

theorem leave_undeclared (result : BodyResult α ε) :
    w.undeclared.leave result r.undeclared = plain (w.leave result r) := by
  cases result with
  | value a => exact leaveBy_undeclared fair _
  | failure e => exact leaveBy_undeclared fair _
  | conflict c => exact leaveOnConflict_undeclared fair c

/-- A step does the same on a state without the declarations, and responds with the same. -/
theorem step_undeclared (fair' : r.published.Fair) (action : WorkerAction α ε) :
    w.undeclared.step r.undeclared action.undeclared = plain (w.step r action) := by
  cases action with
  | call request =>
    simp only [step, WorkerAction.undeclared, isBusy_undeclared]
    split
    · rfl
    · rw [scope_undeclared, Scope.perform_undeclared (s := w.scope r) fair fair']
      exact w.advance_undeclared false _
  | resume =>
    simp only [step, WorkerAction.undeclared, undeclared_pending]
    split
    · exact resume_undeclared fair _
    · rfl
  | enter block mode =>
    simp only [step, WorkerAction.undeclared, isBusy_undeclared]
    split
    · rfl
    · exact w.enter_undeclared r block mode
  | leave result =>
    simp only [step, WorkerAction.undeclared, inBody_undeclared]
    split
    · exact leave_undeclared fair result
    · rfl
  | decide control =>
    simp only [step, WorkerAction.undeclared, undeclared_pending, asking?_undeclared]
    rcases w.pending with _ | rest
    · rcases w.asking? with _ | ⟨b, c⟩
      · rfl
      · exact w.decide_undeclared r b c control
    · rfl
  | unwind =>
    simp only [step, WorkerAction.undeclared, atClient_undeclared]
    split
    · exact w.unwind_undeclared r
    · rfl

end Worker

end TransactionalMemory
