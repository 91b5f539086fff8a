import TransactionalMemory.Proofs.Blocks
import TransactionalMemory.Proofs.Versions

/-! # Stamps are versions, whatever faults are met

Slots are stamped by commits, and a commit takes its stamp from the clock, which moves first.  A slot that is
given back gets the stamp that it had.  So, as long as the clock does not start again, a step adds one commit
to the record, under a stamp beyond the clock, and stamps the slots of the commit with it, or it adds none, and
then it brings no stamp to a slot that was not there before or that a context has not remembered
(`Chronicle.adds_or_restores`).

Hence every free slot carries the stamp of the last commit to it, and every context remembers that stamp of each
slot that it holds (`Chronicle.Versioned`), also when commits stop at a fault on the way; and no stamp is later
than the clock (`Chronicle.timely_run`).
-/

namespace TransactionalMemory

variable {α ε : Type}

theorem Clock.le_advance {c : Clock} (small : c.now < lockBit - 1) : c.now ≤ c.advance.2.now := by
  rw [Clock.advance_eq (by omega)]
  exact Nat.le_succ c.now

theorem RedoLog.GivenBack.stamp_cases {log : RedoLog} {stampOf : Nat → Nat} {t t' : LockTable}
    (given : GivenBack log stampOf t t') {slot stamp : Nat} (word : t'.word slot = .free stamp) :
    t.word slot = .free stamp ∨ ∃ old, log.stamp? slot = some old ∧ stamp = stampOf old := by
  rw [given.word slot] at word
  cases own : log.stamp? slot with
  | none =>
    rw [own] at word
    exact Or.inl word
  | some old =>
    rw [own] at word
    cases word
    exact Or.inr ⟨old, rfl, rfl⟩

namespace Worker.Deed

variable {w : Worker} {r : Runtime} {action : WorkerAction α ε} {out : Response α ε × Runtime × Worker}

theorem clock_le (deed : Deed w r action out) (small : r.clock.now < lockBit - 1) :
    r.clock.now ≤ out.2.1.clock.now := by
  have ticked := Clock.le_advance small
  cases deed with
  | keep same =>
    rcases same.clock with still | moved
    · exact (congrArg Clock.now still).ge
    · exact ticked.trans (congrArg Clock.now moved).ge
  | log l v logged => exact (congrArg (·.clock.now) logged.runtime).ge
  | take l v stamp taken => exact taken.quiet.clock.ge
  | giveUp withdrawn => exact (congrArg Clock.now withdrawn.clock).ge
  | begin withdrawn => exact (congrArg Clock.now withdrawn.clock).ge
  | commit committed => exact (Nat.le_add_right _ _).trans committed.clock.ge
  | stop f stopped => exact ticked.trans (congrArg Clock.now stopped.clock).ge

/-- A step commits, or it brings no stamp to a slot that was not there before, or that the context has not
    remembered. -/
theorem commits_or_restores (deed : Deed w r action out) : Scope.Committed (w.scope r) (landing out) ∨
    ¬ (w.context.phase = .active ∧ out.2.2.context.phase = .committed) ∧
      ∀ slot stamp, out.2.1.table.word slot = .free stamp →
        r.table.word slot = .free stamp ∨ w.context.writes.stamp? slot = some stamp := by
  have restored : ∀ {s : Scope}, RedoLog.GivenBack w.context.writes id r.table s.runtime.table →
      ∀ slot stamp, s.runtime.table.word slot = .free stamp →
        r.table.word slot = .free stamp ∨ w.context.writes.stamp? slot = some stamp := by
    intro s given slot stamp word
    rcases given.stamp_cases word with before | ⟨old, own, rfl⟩
    · exact Or.inl before
    · exact Or.inr own
  have undone : out.2.2.context.phase = w.context.phase →
      ¬ (w.context.phase = .active ∧ out.2.2.context.phase = .committed) := by
    rintro same ⟨active, committed⟩
    rw [same, active] at committed
    cases committed
  cases deed with
  | commit committed => exact Or.inl committed
  | keep same =>
    exact Or.inr ⟨undone same.phase, fun slot stamp word => Or.inl (same.table ▸ word)⟩
  | log l v logged =>
    exact Or.inr ⟨undone logged.phase, fun slot stamp word =>
      Or.inl (congrArg (·.table.word slot) logged.runtime ▸ word)⟩
  | take l v stamp' taken =>
    refine Or.inr ⟨undone taken.phase, fun slot stamp word => ?_⟩
    rcases taken.quiet.slots slot with same | ⟨-, held⟩
    · exact Or.inl (same ▸ word)
    · cases held.symm.trans word
  | giveUp withdrawn active aborted =>
    refine Or.inr ⟨fun both => ?_, restored withdrawn.given⟩
    cases aborted.symm.trans both.2
  | begin withdrawn active =>
    refine Or.inr ⟨fun both => ?_, restored withdrawn.given⟩
    cases active.symm.trans both.2
  | stop f stopped =>
    exact Or.inr ⟨undone stopped.phase, fun slot stamp word => Or.inl (stopped.table ▸ word)⟩

end Worker.Deed

/-- The version at an earlier value of the clock is the version now, unless there was a commit to the slot
    since. -/
theorem exists_of_version_ne {commits : List Commit} {slot time : Nat}
    (differs : version (commits.filter (·.stamp ≤ time)) slot ≠ version commits slot) :
    ∃ x ∈ commits, x.context.writes.owns slot = true ∧ time < x.stamp := by
  induction commits using List.reverseRecOn with
  | nil => exact absurd rfl differs
  | append_singleton commits x ih =>
    have last : x ∈ commits ++ [x] := List.mem_append_right _ (List.mem_singleton_self x)
    by_cases owns : x.context.writes.owns slot = true
    · by_cases early : x.stamp ≤ time
      · -- The last commit to the slot counts at both times.
        rw [List.filter_append, List.filter_cons_of_pos (by simpa using early),
          List.filter_nil, version_append, version_append, if_pos owns, if_pos owns] at differs
        exact absurd rfl differs
      · exact ⟨x, last, owns, Nat.lt_of_not_le early⟩
    · have same : version ((commits ++ [x]).filter (·.stamp ≤ time)) slot =
          version (commits.filter (·.stamp ≤ time)) slot := by
        rw [List.filter_append]
        refine version_append_of_not_owns _ fun y member => ?_
        rwa [List.mem_singleton.mp (List.mem_of_mem_filter member)]
      rw [same, version_append, if_neg owns] at differs
      obtain ⟨y, member, found⟩ := ih differs
      exact ⟨y, List.mem_append_left _ member, found⟩

/-! ## Steps and runs -/

theorem System.Orderly.clock_le {s : System} (h : s.Orderly) (a : Action α ε)
    (small : s.runtime.clock.now < lockBit - 1) :
    s.runtime.clock.now ≤ (s.step a).2.runtime.clock.now := by
  rcases h.step_cases a with ⟨o, action, w, -, here, runtime⟩ | ⟨o, w, scope, -, -, withdrawn, runtime⟩ |
    ⟨-, -, clock⟩
  · rw [runtime]
    exact (Worker.deed_step (h.holding o w here) action).clock_le small
  · rw [runtime, withdrawn.clock]
    exact Nat.le_refl _
  · rw [clock]

/-- What holds of all beginnings of a list holds of all beginnings of its first part. -/
theorem forall_take_of_append {β : Type} {P : List β → Prop} {before after : List β}
    (all : ∀ n ≤ (before ++ after).length, P ((before ++ after).take n)) :
    ∀ n ≤ before.length, P (before.take n) := by
  intro n le
  have earlier := all n (by rw [List.length_append]; omega)
  rwa [List.take_append_of_le_length le] at earlier

namespace Chronicle

variable {t : Chronicle} {settings : Settings} {r : Runtime}

/-- What holds at the beginning of a run and is kept by each turn, as long as the clock stays below the largest
    stamp, holds along the run. -/
theorem induct_run {P : Chronicle → Prop} (new : Runtime.new? settings = .ok r) (m : Memory)
    {actions : List (Action α ε)} (owners : actions.countP Action.isAnnounce < lockBit)
    (clock : ∀ n ≤ actions.length, ((start r m).run (actions.take n)).system.runtime.clock.now < lockBit - 1)
    (first : P (start r m))
    (next : ∀ (t : Chronicle) (a : Action α ε) (new : Bool), t.system.Orderly →
      System.Turn t.system new (t.step a).system → t.system.runtime.clock.now < lockBit - 1 → P t →
        P (t.step a)) :
    P ((start r m).run actions) := by
  induction actions using List.reverseRecOn with
  | nil => exact first
  | append_singleton actions a ih =>
    have before : actions.countP Action.isAnnounce < lockBit := by
      rw [List.countP_append] at owners
      omega
    obtain ⟨orderly, ids⟩ := orderly_run new m before
    have small := clock actions.length (by simp)
    rw [List.take_left] at small
    rw [run_snoc]
    refine next _ a _ orderly (turn_next orderly ids owners) small (ih before ?_)
    exact forall_take_of_append (P := fun pre => ((start r m).run pre).system.runtime.clock.now < lockBit - 1) clock

/-! ## What a step adds to the record of commits -/

/-- A step has added a commit to the record, and stamped the slots of the commit. -/
structure Adds (t t' : Chronicle) (owner : OwnerId) (x : Commit) : Prop where
  commits : t'.commits = t.commits ++ [x]
  owner : x.context.owner = owner
  later : t.system.runtime.clock.now < x.stamp
  stamp : x.stamp = t'.system.runtime.clock.now
  wellFormed : x.context.writes.WellFormed t.system.runtime.table.slotOf
  word : ∀ slot, t'.system.runtime.table.word slot =
    if x.context.writes.owns slot then .free x.stamp else t.system.runtime.table.word slot

/-- A step has added no commit, and brought no stamp to a slot that was not there before or remembered. -/
structure Restores (t t' : Chronicle) : Prop where
  commits : t'.commits = t.commits
  word : ∀ slot stamp, t'.system.runtime.table.word slot = .free stamp →
    t.system.runtime.table.word slot = .free stamp ∨
      ∃ o w, t.system.worker? o = some w ∧ w.context.writes.stamp? slot = some stamp

theorem adds_or_restores_act (orderly : t.system.Orderly) {owner : OwnerId} {w : Worker}
    (here : t.system.worker? owner = some w) (action : WorkerAction α ε) :
    (∃ x, t.Adds (t.step (.act owner action)) owner x) ∨ t.Restores (t.step (.act owner action)) := by
  have holding := orderly.holding owner w here
  have runtime := runtime_step_act here action
  have step : t.step (.act owner action) = _ := step_act here
  rcases (Worker.deed_step holding action).commits_or_restores with committed | ⟨undone, restores⟩
  · have given := committed.given
    cases wrote : w.context.writes.isEmpty with
    | false =>
      have clock : (w.step t.system.runtime action).2.1.clock.now = t.system.runtime.clock.now + 1 := by
        have clock := committed.clock
        rwa [show (w.scope t.system.runtime).context.writes.isEmpty = false from wrote] at clock
      refine Or.inl ⟨⟨(w.step t.system.runtime action).2.1.clock.now, w.context, t.attempts owner⟩, ?_,
        orderly.owners owner w here, ?_, ?_, holding.wellFormed, fun slot => ?_⟩
      · rw [step]
        refine if_pos ⟨⟨committed.active, committed.phase⟩, ?_⟩
        rw [show (t.seat owner w).context.writes.isEmpty = false from wrote]
        exact Bool.false_ne_true
      · exact clock ▸ Nat.lt_succ_self _
      · rw [runtime]
      · rw [runtime]
        have word := given.word slot
        rw [RedoLog.owns]
        cases own : w.context.writes.stamp? slot with
        | some stamp => rwa [show (w.scope t.system.runtime).context.writes.stamp? slot = _ from own] at word
        | none => rwa [show (w.scope t.system.runtime).context.writes.stamp? slot = _ from own] at word
    | true =>
      have empty : w.context.writes = {} := RedoLog.eq_empty wrote
      refine Or.inr ⟨?_, fun slot stamp word => ?_⟩
      · rw [step]
        exact if_neg fun both => both.2 wrote
      · rw [runtime] at word
        rcases given.stamp_cases word with before | ⟨old, own, -⟩
        · exact Or.inl before
        · rw [show (w.scope t.system.runtime).context.writes = {} from empty] at own
          cases own
  · refine Or.inr ⟨?_, fun slot stamp word => ?_⟩
    · rw [step]
      exact if_neg fun both => undone both.1
    · rw [runtime] at word
      exact (restores slot stamp word).imp_right fun own => ⟨owner, w, here, own⟩

theorem restores_of_not_act (orderly : t.system.Orderly) {a : Action α ε}
    (other : ∀ owner action, a ≠ .act owner action) : t.Restores (t.step a) := by
  refine ⟨?_, fun slot stamp word => ?_⟩
  · cases a with
    | act owner action => exact absurd rfl (other owner action)
    | _ => rfl
  · rw [system_step] at word
    rcases orderly.step_cases a with ⟨owner, action, -, act, -⟩ | ⟨owner, w, scope, -, here, withdrawn, runtime⟩ |
      ⟨-, table, -⟩
    · exact absurd act (other owner action)
    · rw [runtime] at word
      rcases withdrawn.given.stamp_cases word with before | ⟨old, own, rfl⟩
      · exact Or.inl before
      · exact Or.inr ⟨owner, w, here, own⟩
    · exact Or.inl (table ▸ word)

/-- A step adds one commit of its owner to the record, or none. -/
theorem adds_or_restores (orderly : t.system.Orderly) (a : Action α ε) :
    (∃ owner action x, a = .act owner action ∧ t.Adds (t.step a) owner x) ∨ t.Restores (t.step a) := by
  cases a with
  | act owner action =>
    cases here : t.system.worker? owner with
    | none =>
      have same : t.step (.act owner action) = t := by simp only [step, here]
      exact Or.inr ⟨congrArg Chronicle.commits same, fun slot stamp word => Or.inl (same ▸ word)⟩
    | some w =>
      rcases adds_or_restores_act orderly here action with ⟨x, adds⟩ | restores
      · exact Or.inl ⟨owner, action, x, rfl, adds⟩
      · exact Or.inr restores
  | _ => exact Or.inr (restores_of_not_act orderly (by rintro _ _ ⟨⟩))

theorem grown_step (orderly : t.system.Orderly) (small : t.system.runtime.clock.now < lockBit - 1)
    (a : Action α ε) : Grown t (t.step a) where
  bits := by
    rw [system_step]
    exact orderly.bits_step a
  clock := by
    rw [system_step]
    exact orderly.clock_le a small
  later := by
    rcases adds_or_restores orderly a with ⟨owner, action, x, -, adds⟩ | restores
    · refine ⟨[x], adds.commits, fun y member => ?_⟩
      rw [List.mem_singleton.mp member]
      exact adds.later
    · exact ⟨[], by rw [restores.commits, List.append_nil], List.forall_mem_nil _⟩

/-! ## Versions -/

/-- Every free slot carries its version, and every context remembers the version of each slot that it holds. -/
structure Versioned (t : Chronicle) : Prop where
  ordered : t.commits.Pairwise (·.stamp < ·.stamp)
  stamped : ∀ x ∈ t.commits, x.stamp ≤ t.system.runtime.clock.now
  logs : ∀ x ∈ t.commits, x.context.writes.WellFormed t.system.runtime.table.slotOf
  free : ∀ slot stamp, t.system.runtime.table.word slot = .free stamp → version t.commits slot = stamp
  remembered : ∀ o w, t.system.worker? o = some w → ∀ slot stamp, w.context.writes.stamp? slot = some stamp →
    version t.commits slot = stamp

namespace Versioned

variable {a : Action α ε} {new : Bool}

/-- What a context remembers after a step was the version of the slot before the step. -/
theorem remembered_before (versioned : t.Versioned) (orderly : t.system.Orderly)
    (turn : System.Turn t.system new (t.step a).system) {o : OwnerId} {w : Worker}
    (there : (t.step a).system.worker? o = some w) {slot stamp : Nat}
    (own : w.context.writes.stamp? slot = some stamp) : version t.commits slot = stamp := by
  rcases turn.stamp?_cases orderly there own with ⟨w₀, here, own⟩ | free
  · exact versioned.remembered o w₀ here slot stamp own
  · exact versioned.free slot stamp free

theorem of_adds (versioned : t.Versioned) (orderly : t.system.Orderly)
    (turn : System.Turn t.system new (t.step a).system) (grown : Grown t (t.step a)) {owner : OwnerId}
    {x : Commit} (adds : t.Adds (t.step a) owner x) : (t.step a).Versioned := by
  refine ⟨?_, fun y member => ?_, fun y member => ?_, fun slot stamp word => ?_, fun o w there slot stamp own => ?_⟩
  · rw [adds.commits]
    refine List.pairwise_append.mpr ⟨versioned.ordered, List.pairwise_singleton _ _, fun y before z last => ?_⟩
    rw [List.mem_singleton.mp last]
    exact (versioned.stamped y before).trans_lt adds.later
  · rw [adds.commits] at member
    rcases List.mem_append.mp member with before | last
    · exact (versioned.stamped y before).trans grown.clock
    · rw [List.mem_singleton.mp last, adds.stamp]
  · rw [adds.commits] at member
    rw [LockTable.slotOf_congr grown.bits]
    rcases List.mem_append.mp member with before | last
    · exact versioned.logs y before
    · rw [List.mem_singleton.mp last]
      exact adds.wellFormed
  · rw [adds.word slot] at word
    rw [adds.commits, version_append]
    split at word
    · next owns =>
      cases word
      exact if_pos owns
    · next other =>
      rw [if_neg other]
      exact versioned.free slot stamp word
  · -- The slots of the commit are free now, so the slot is another one.
    have held : (t.step a).system.runtime.table.word slot = .held o := by
      rw [(orderly.turn turn).word_iff there, RedoLog.owns, own]
      rfl
    have other : ¬ x.context.writes.owns slot = true := fun owns => by
      rw [adds.word slot, if_pos owns] at held
      cases held
    rw [adds.commits, version_append, if_neg other]
    exact versioned.remembered_before orderly turn there own

theorem of_restores (versioned : t.Versioned) (orderly : t.system.Orderly)
    (turn : System.Turn t.system new (t.step a).system) (grown : Grown t (t.step a))
    (restores : t.Restores (t.step a)) : (t.step a).Versioned := by
  refine ⟨restores.commits ▸ versioned.ordered, fun y member => ?_, fun y member => ?_, fun slot stamp word => ?_,
    fun o w there slot stamp own => ?_⟩
  · rw [restores.commits] at member
    exact (versioned.stamped y member).trans grown.clock
  · rw [restores.commits] at member
    rw [LockTable.slotOf_congr grown.bits]
    exact versioned.logs y member
  · rw [restores.commits]
    rcases restores.word slot stamp word with before | ⟨o, w, here, own⟩
    · exact versioned.free slot stamp before
    · exact versioned.remembered o w here slot stamp own
  · rw [restores.commits]
    exact versioned.remembered_before orderly turn there own

theorem step (versioned : t.Versioned) (orderly : t.system.Orderly)
    (turn : System.Turn t.system new (t.step a).system) (small : t.system.runtime.clock.now < lockBit - 1) :
    (t.step a).Versioned := by
  have grown := grown_step orderly small a
  rcases adds_or_restores orderly a with ⟨owner, action, x, -, adds⟩ | restores
  · exact versioned.of_adds orderly turn grown adds
  · exact versioned.of_restores orderly turn grown restores

end Versioned

theorem versioned_start (new : Runtime.new? settings = .ok r) (m : Memory) :
    (start r m).Versioned where
  ordered := .nil
  stamped := List.forall_mem_nil _
  logs := List.forall_mem_nil _
  free slot stamp word := by
    rw [show (start r m).system.runtime.table.word slot = .free 0 from
      LockTable.word_of_untouched (Runtime.of_new? new).2.1 slot] at word
    cases word
    rfl
  remembered o w there := by simp [start, System.worker?] at there

theorem versioned_run (new : Runtime.new? settings = .ok r) (m : Memory) {actions : List (Action α ε)}
    (owners : actions.countP Action.isAnnounce < lockBit)
    (clock : ∀ n ≤ actions.length,
      ((start r m).run (actions.take n)).system.runtime.clock.now < lockBit - 1) :
    ((start r m).run actions).Versioned :=
  induct_run new m owners clock (versioned_start new m) fun _ _ _ orderly turn small versioned =>
    versioned.step orderly turn small

end Chronicle

/-! ## Stamps and the clock -/

/-- No slot carries a stamp later than the clock, and no context remembers one. -/
structure System.Timely (s : System) : Prop where
  free : ∀ slot stamp, s.runtime.table.word slot = .free stamp → stamp ≤ s.runtime.clock.now
  remembered : ∀ o w, s.worker? o = some w → ∀ slot stamp, w.context.writes.stamp? slot = some stamp →
    stamp ≤ s.runtime.clock.now

theorem Chronicle.Versioned.timely {t : Chronicle} (versioned : t.Versioned) : t.system.Timely where
  free slot stamp word := versioned.free slot stamp word ▸ version_le versioned.stamped slot
  remembered o w here slot stamp own :=
    versioned.remembered o w here slot stamp own ▸ version_le versioned.stamped slot

theorem Chronicle.timely_run {settings : Settings} {r : Runtime} (new : Runtime.new? settings = .ok r)
    (m : Memory) {actions : List (Action α ε)} (owners : actions.countP Action.isAnnounce < lockBit)
    (clock : ∀ n ≤ actions.length,
      ((start r m).run (actions.take n)).system.runtime.clock.now < lockBit - 1) :
    ((start r m).run actions).system.Timely :=
  (versioned_run new m owners clock).timely

end TransactionalMemory
