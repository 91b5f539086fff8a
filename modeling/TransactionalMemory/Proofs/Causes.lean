import TransactionalMemory.Proofs.Recall

/-! # Nobody is aborted without a cause

Each conflict for which the engine aborts an attempt is the doing of another context, at the granularity of slots
(`aborts_caused_by_others`): another one holds the slot of the field that is accessed, or it holds the slot of a
read that is under watch, or it has committed to that slot since the read was made.

The grounds that a segment has for an abort are about the lock table and the logs (`Scope.Grounds`).  What they
tell of a run follows from what the stamps and the logs stand for: a slot that is free, or held by the attempt
itself, carries its version, and an entry of a log has the version that its read has found, so if the two differ,
there was a commit in between, and it was not one of the attempt's own owner, who has committed nothing since the
attempt began (`Chronicle.Attentive`).
-/

namespace TransactionalMemory

variable {α ε : Type}

namespace Chronicle

/-! ## Causes -/

/-- Another context, in the middle of an attempt, holds the slot. -/
def HeldByOther (t : Chronicle) (owner : OwnerId) (slot : Nat) : Prop :=
  ∃ o w, o ≠ owner ∧ t.system.worker? o = some w ∧ w.context.phase = .active ∧
    t.system.runtime.table.word slot = .held o

/-- Another context has committed to the slot of a read since the read was made. -/
def Overtaken (t : Chronicle) (owner : OwnerId) (q : Reading) : Prop :=
  ∃ x ∈ t.commits, x.context.owner ≠ owner ∧ q.time < x.stamp ∧
    x.Wrote t.system.runtime.table.slotOf (t.system.runtime.table.slotOf q.location)

/-- An entry of a log of reads lies in a slot that another context holds, or that another context has committed
    to since the attempt made the read that the entry stands for. -/
def Disturbed (t : Chronicle) (owner : OwnerId) (e : ReadEntry) : Prop :=
  t.HeldByOther owner (t.system.runtime.table.slotOf e.location) ∨
    ∃ q, t.Records owner e q ∧ t.Overtaken owner q

/-- What others have done for a conflict that a context meets in a step, which may access a field. -/
def Caused (t : Chronicle) (owner : OwnerId) (w : Worker) (target : Option Location) : Conflict → Prop
  | .lockedByOther => ∃ l ∈ target, t.HeldByOther owner (t.system.runtime.table.slotOf l)
  | .betweenSuccessiveReads | .betweenReadAndWrite => ∃ e ∈ w.context.window.entries, t.Disturbed owner e
  | .writeAfterRead => ∃ l ∈ target, ∃ q, .read q ∈ (t.attempts owner).accesses ∧ q.location = l ∧
      t.Overtaken owner q
  | .extendFailed | .invalidCommit => ∃ e ∈ w.context.reads.entries, t.Disturbed owner e

variable {t : Chronicle} {owner : OwnerId} {w : Worker} {e : ReadEntry} {q : Reading}

theorem heldByOther_of_word (orderly : t.system.Orderly) {slot : Nat} {holder : OwnerId}
    (word : t.system.runtime.table.word slot = .held holder) (other : holder ≠ owner) :
    t.HeldByOther owner slot := by
  cases there : t.system.worker? holder with
  | none => exact absurd word (orderly.strangers holder there slot)
  | some w =>
    exact ⟨holder, w, other, there, orderly.active_of_owns there ((orderly.word_iff there slot).mp word), word⟩

namespace Mindful

variable (mindful : t.Mindful) (orderly : t.system.Orderly) (here : t.system.worker? owner = some w)
  (active : w.context.phase = .active)

include mindful here active

/-- A read was overtaken if the version of its slot is not the one that it has found. -/
theorem overtaken (records : t.Records owner e q) (since : w.context.lower ≤ q.time)
    (differs : version t.commits e.slot ≠ e.observed) : t.Overtaken owner q := by
  obtain ⟨x, member, owns, later⟩ := exists_of_version_ne (records.version.trans_ne differs.symm)
  refine ⟨x, member, fun own => ?_, later, ?_⟩
  · have before := (mindful.attentive owner w here).own active x member own
    omega
  · rw [records.location, ← records.slot]
    exact (mindful.logs x member).owns_iff_exists.mp owns

include orderly

theorem disturbed (remembers : w.context.Remembers e) (stale : (w.scope t.system.runtime).Stale e) :
    t.Disturbed owner e := by
  obtain ⟨q, records, since, -⟩ := ((mindful.attentive owner w here).tracks active e remembers).read
  have own : w.context.owner = owner := orderly.owners owner w here
  cases word : t.system.runtime.table.word e.slot with
  | free stamp =>
    refine Or.inr ⟨q, records, mindful.overtaken here active records since fun same => stale (Or.inl ?_)⟩
    rw [← same, mindful.free e.slot stamp word]
    exact word
  | held holder =>
    by_cases self : holder = owner
    · -- The attempt holds the slot itself, and remembers the version that the slot had.
      have held : (w.scope t.system.runtime).runtime.table.word e.slot = .held w.context.owner := by
        rw [own, ← self]
        exact word
      obtain ⟨stamp, remembered⟩ := (orderly.holding owner w here).stamp?_of_held held
      refine Or.inr ⟨q, records, mindful.overtaken here active records since fun same =>
        stale (Or.inr ⟨held, ?_⟩)⟩
      rw [← same, mindful.remembered owner w here e.slot stamp remembered]
      exact remembered
    · refine Or.inl (heldByOther_of_word orderly ?_ self)
      rw [← records.slot]
      exact word

/-- Good grounds for an abort are the doing of others. -/
theorem caused {target : Option Location} {c : Conflict} (grounds : (w.scope t.system.runtime).Grounds target c) :
    t.Caused owner w target c := by
  have disturbs : ∀ {e}, w.context.Remembers e → (w.scope t.system.runtime).Stale e → t.Disturbed owner e :=
    mindful.disturbed orderly here active
  cases c with
  | lockedByOther =>
    obtain ⟨l, aimed, holder, word, other⟩ := grounds
    have own : w.context.owner = owner := orderly.owners owner w here
    exact ⟨l, aimed, heldByOther_of_word orderly word (own ▸ other)⟩
  | betweenSuccessiveReads =>
    obtain ⟨e, member, stale⟩ := grounds
    exact ⟨e, member, disturbs (Or.inr member) stale⟩
  | betweenReadAndWrite =>
    obtain ⟨e, member, stale⟩ := grounds
    exact ⟨e, member, disturbs (Or.inr member) stale⟩
  | writeAfterRead =>
    obtain ⟨l, aimed, stamp, e, remembers, same, word, beyond⟩ := grounds
    obtain ⟨observed, q, records, since, -⟩ := (mindful.attentive owner w here).tracks active e remembers
    refine ⟨l, aimed, q, records.made, records.location.trans same,
      mindful.overtaken here active records since ?_⟩
    -- The slot has a stamp beyond the bound of the snapshot, which has reached all reads.
    have version : version t.commits (t.system.runtime.table.slotOf l) = stamp := mindful.free _ _ word
    have beyond : w.context.upper < stamp := beyond
    rw [records.slot, same, version]
    omega
  | extendFailed =>
    obtain ⟨e, member, stale⟩ := grounds
    exact ⟨e, member, disturbs (Or.inl member) stale⟩
  | invalidCommit =>
    obtain ⟨e, member, stale⟩ := grounds
    exact ⟨e, member, disturbs (Or.inl member) stale⟩

end Mindful

/-! ## Decisions -/

/-- A step of the context, among the actions, that decided on an abort for a cause that there was. -/
def Decided (t₀ : Chronicle) (actions : List (Action α ε)) (owner : OwnerId) (c : Conflict)
    (before : List (Action α ε)) (decides : WorkerAction α ε) : Prop :=
  before ++ [.act owner decides] <+: actions ∧
    ∃ w, (t₀.run before).system.worker? owner = some w ∧ w.context.phase = .active ∧
      (t₀.run before).Caused owner w (w.target? decides) c

section

variable {settings : Settings} {r : Runtime} (new : Runtime.new? settings = .ok r) (m : Memory)

include new

/-- A commit that stands at the event of its failure has stood there since its check was decided. -/
theorem decided_of_failing {actions : List (Action α ε)} (owners : actions.countP Action.isAnnounce < lockBit)
    (clock : ∀ n ≤ actions.length,
      ((start r m).run (actions.take n)).system.runtime.clock.now < lockBit - 1)
    {site : AbortSite} (there : ((start r m).run actions).system.worker? owner = some w)
    (failing : w.pending = some (.failCommit site)) :
    ∃ before decides, Decided (start r m) actions owner .invalidCommit before decides ∧
      ((start r m).run (before ++ [.act owner decides])).system.worker? owner = some w := by
  induction actions using List.reverseRecOn generalizing w with
  | nil => simp [start, System.worker?] at there
  | append_singleton actions a ih =>
    have owners₀ : actions.countP Action.isAnnounce < lockBit := by
      rw [List.countP_append] at owners
      omega
    have clock₀ := forall_take_of_append
      (P := fun pre => ((start r m).run pre).system.runtime.clock.now < lockBit - 1) clock
    have orderly := (orderly_run new m owners₀).1
    have mindful := mindful_run new m owners₀ clock₀
    have earlier : ((start r m).run actions).system.worker? owner = some w →
        ∃ before decides, Decided (start r m) (actions ++ [a]) owner .invalidCommit before decides ∧
          ((start r m).run (before ++ [.act owner decides])).system.worker? owner = some w := by
      intro here
      obtain ⟨before, decides, ⟨prior, cause⟩, stands⟩ := ih owners₀ clock₀ here failing
      exact ⟨before, decides, ⟨prior.trans (List.prefix_append _ _), cause⟩, stands⟩
    -- Either the worker stood there before the last step, or the last step is the one that has decided.
    have moved := there
    rw [run_snoc, system_step] at moved
    rcases orderly.worker_cases moved with here | ⟨action, w₀, rfl, here, rfl⟩ | ⟨-, window, rfl⟩
    · exact earlier here
    · have attentive := mindful.attentive owner w₀ here
      cases w₀.course_step (orderly.holding owner w₀ here) attentive.upper attentive.inside attentive.awaits action with
      | begins renewed free => cases free.symm.trans failing
      | goes candid =>
        rcases candid.fails site failing with unchanged | ⟨active, grounds⟩
        · exact earlier (here.trans (congrArg some unchanged.symm))
        · have caused := mindful.caused orderly here active grounds
          exact ⟨actions, action, ⟨List.prefix_refl _, w₀, here, active, caused⟩, there⟩
    · cases failing

end

end Chronicle

/-- In a run of any contexts, whatever faults they meet, each abort of the engine is the doing of another context.
    The step that decided on it was one of an active attempt, and when it was made, another context in the middle
    of an attempt held the slot of the field that it accessed; or an entry of the window, if the conflict is
    between recent reads, or of the read log, if the snapshot could not be extended or the commit was not valid,
    was in a slot that another context held, or had committed to since the attempt made that read; or the attempt
    had read the field that it wrote, and another context had committed to its slot since.  The abort is decided
    by the step that comes to stand at its event; only a commit that fails has stood at the event of the failure
    before. -/
theorem aborts_caused_by_others {settings : Settings} {r : Runtime} (new : Runtime.new? settings = .ok r)
    (m : Memory) (actions : List (Action α ε)) (owners : actions.countP Action.isAnnounce < lockBit)
    (clock : ∀ n ≤ actions.length,
      ((Chronicle.start r m).run (actions.take n)).system.runtime.clock.now < lockBit - 1)
    (owner : OwnerId) (action : WorkerAction α ε) {o : OwnerId} {block : Nat} {c : Conflict}
    (aborts : (((Chronicle.start r m).run actions).system.step (.act owner action)).1 =
      .standing (.abort o block c)) :
    ∃ before decides,
      Chronicle.Decided (Chronicle.start r m) (actions ++ [.act owner action]) owner c before decides ∧
      (before = actions ∧ decides = action ∨
        c = .invalidCommit ∧ ((Chronicle.start r m).run (before ++ [.act owner decides])).system.worker? owner =
          ((Chronicle.start r m).run actions).system.worker? owner) := by
  have orderly := (Chronicle.orderly_run new m owners).1
  have mindful := Chronicle.mindful_run new m owners clock
  cases here : ((Chronicle.start r m).run actions).system.worker? owner with
  | none =>
    rw [System.step, System.act, here] at aborts
    cases aborts
  | some w =>
    rw [System.step, System.act_eq here] at aborts
    have attentive := mindful.attentive owner w here
    cases w.course_step (orderly.holding owner w here) attentive.upper attentive.inside attentive.awaits action with
    | begins renewed free told => exact absurd aborts (told _)
    | goes candid =>
      rcases candid.aborts o block c aborts with ⟨active, grounds⟩ | ⟨rfl, site, failing⟩
      · exact ⟨actions, action, ⟨List.prefix_refl _, w, here, active, mindful.caused orderly here active grounds⟩,
          Or.inl ⟨rfl, rfl⟩⟩
      · obtain ⟨before, decides, ⟨prior, cause⟩, stands⟩ :=
          Chronicle.decided_of_failing new m owners clock here failing
        exact ⟨before, decides, ⟨prior.trans (List.prefix_append _ _), cause⟩, Or.inr ⟨rfl, stands⟩⟩

/-- The commit of one context is overtaken by that of another, stands at the event of its failure while the other
    goes on, and is then aborted. -/
theorem aborts_caused_by_others_of_two :
    let actions : List (Action Unit Unit) :=
      [.announce, .announce, .register ⟨1⟩, .register ⟨2⟩,
       .act ⟨1⟩ (.call (.start 0 .regular)), .act ⟨1⟩ (.call (.read ⟨16, 0⟩ .u64)),
       .act ⟨1⟩ (.call (.write ⟨16, 1⟩ (.u64 7))),
       .act ⟨2⟩ (.call (.start 0 .regular)), .act ⟨2⟩ (.call (.write ⟨16, 0⟩ (.u64 8))),
       .act ⟨2⟩ (.call .commit), .act ⟨1⟩ (.call .commit), .act ⟨2⟩ (.call (.start 0 .elastic))]
    let t := (Chronicle.start smallRuntime pair).run actions
    (t.system.step (.act ⟨1⟩ .resume : Action Unit Unit)).1 = .standing (.abort ⟨1⟩ 0 .invalidCommit) ∧
      ∃ before decides, Chronicle.Decided (Chronicle.start smallRuntime pair) (actions ++ [.act ⟨1⟩ .resume]) ⟨1⟩
        .invalidCommit before decides := by
  intro actions t
  have aborts : (t.system.step (.act ⟨1⟩ .resume : Action Unit Unit)).1 =
      .standing (.abort ⟨1⟩ 0 .invalidCommit) := by decide +kernel
  obtain ⟨before, decides, decided, -⟩ :=
    aborts_caused_by_others smallRuntime_new pair actions (by decide) (by decide +kernel) ⟨1⟩ .resume aborts
  exact ⟨aborts, before, decides, decided⟩

end TransactionalMemory
