import TransactionalMemory.Proofs.Causes
import TransactionalMemory.Proofs.Extensions

/-! # Validation is exact

The check of a log compares words of the lock table with the stamps that the reads have seen, and with the stamps
that the redo log remembers for the slots that the attempt has taken since.  It holds exactly if the reads are
untouched: no other context holds their slots, and no commit has stamped them since the reads were made
(`validation_is_exact`).

That a read which is not current was disturbed is the cause of an abort (`Chronicle.Mindful.disturbed`).  The other
direction rests on the stamps: a commit after the read would have left the slot with a version beyond the one that the
read has seen, and no rollback and no later acquisition brings an old stamp back.

A commit skips the check if the clock has not moved since the attempt began.  It would have found no read overtaken: at
most it would have met a slot that is held by an attempt that has not committed (`skipped_validation_finds_no_commit`).
-/

namespace TransactionalMemory

variable {α ε : Type}

namespace Chronicle

variable {t : Chronicle} {owner : OwnerId} {w : Worker} {e : ReadEntry} {q : Reading}

/-- A commit has stamped the slot after the given value of the clock. -/
def StampedSince (t : Chronicle) (slot time : Nat) : Prop :=
  ∃ x ∈ t.commits, x.Wrote t.system.runtime.table.slotOf slot ∧ time < x.stamp

instance (slot time : Nat) : Decidable (t.StampedSince slot time) :=
  inferInstanceAs (Decidable (∃ x ∈ t.commits, x.Wrote t.system.runtime.table.slotOf slot ∧ time < x.stamp))

/-- Nobody else holds the slot of an entry, and no commit has stamped it since the read that the entry stands for. -/
structure Untouched (t : Chronicle) (owner : OwnerId) (e : ReadEntry) : Prop where
  unheld : ¬ t.HeldByOther owner e.slot
  unstamped : ∀ q, t.Records owner e q → ¬ t.StampedSince e.slot q.time

/-- The answer of a check of entries: each of them stands for a read of the attempt, and the answer is `true` if and
    only if all are untouched. -/
structure Exact (t : Chronicle) (owner : OwnerId) (entries : List ReadEntry) (answer : Except Fault Bool) : Prop where
  made : ∀ e ∈ entries, ∃ q, t.Records owner e q
  answers : ∃ valid, answer = .ok valid ∧ (valid = true ↔ ∀ e ∈ entries, t.Untouched owner e)

/-- Once a slot was stamped after a read, its version is not the one that the read has found. -/
theorem Versioned.version_ne_of_stampedSince (versioned : t.Versioned) (records : t.Records owner e q)
    (since : t.StampedSince e.slot q.time) : version t.commits e.slot ≠ e.observed := by
  obtain ⟨x, member, wrote, later⟩ := since
  intro same
  have seen : e.observed ≤ q.time := by
    rw [← records.version]
    exact version_le (fun y early => of_decide_eq_true (List.mem_filter.mp early).2) e.slot
  rcases largestStamp_version versioned.ordered versioned.logs e.slot with ⟨-, -, -, -, largest⟩ | ⟨-, none⟩
  · have reached : x.stamp ≤ version t.commits e.slot := largest x member wrote
    omega
  · exact none x member wrote

theorem Mindful.untouched_iff_current (mindful : t.Mindful) (orderly : t.system.Orderly)
    (here : t.system.worker? owner = some w) (active : w.context.phase = .active)
    (remembers : w.context.Remembers e) :
    t.Untouched owner e ↔ e.Current t.system.runtime.table w.context.owner w.context.writes := by
  constructor
  · intro untouched
    by_contra stale
    have slot : e.slot = t.system.runtime.table.slotOf e.location := by
      obtain ⟨q, records, -⟩ := ((mindful.attentive owner w here).tracks active e remembers).read
      exact records.slot
    rcases mindful.disturbed orderly here active remembers stale with held | ⟨q, records, x, member, -, later, wrote⟩
    · exact untouched.unheld (slot ▸ held)
    · rw [records.location, ← slot] at wrote
      exact untouched.unstamped q records ⟨x, member, wrote, later⟩
  · intro current
    refine ⟨?_, fun q records since => ?_⟩
    · rintro ⟨o, -, other, -, -, word⟩
      rcases current with free | ⟨own, -⟩
      · cases free.symm.trans word
      · rw [orderly.owners owner w here, word] at own
        cases own
        exact other rfl
    · exact mindful.version_ne_of_stampedSince records since (mindful.version_of_current here current)

/-- The check of entries that an active context remembers is exact. -/
theorem Mindful.exact (mindful : t.Mindful) (orderly : t.system.Orderly)
    (here : t.system.worker? owner = some w) (active : w.context.phase = .active) {entries : List ReadEntry}
    (remembers : ∀ e ∈ entries, w.context.Remembers e) :
    t.Exact owner entries (allCurrent t.system.runtime.table w.context.owner w.context.writes entries) := by
  have attentive := mindful.attentive owner w here
  have untouched : ∀ e ∈ entries, t.Untouched owner e ↔ e.Current t.system.runtime.table w.context.owner _ :=
    fun e member => mindful.untouched_iff_current orderly here active (remembers e member)
  obtain ⟨valid, checked⟩ := allCurrent_ok w.context.owner w.context.writes
    fun e member => attentive.inside active e (remembers e member)
  refine ⟨fun e member => ?_, valid, checked, ?_⟩
  · obtain ⟨q, records, -⟩ := (attentive.tracks active e (remembers e member)).read
    exact ⟨q, records⟩
  · cases valid with
    | true => exact iff_of_true rfl fun e member =>
        (untouched e member).mpr (current_of_allCurrent checked e member)
    | false =>
      obtain ⟨e, member, stale⟩ := exists_of_allCurrent checked
      exact iff_of_false Bool.noConfusion fun all => stale ((untouched e member).mp (all e member))

end Chronicle

/-- In every reachable state, whatever faults were met, and for every active attempt in any mode: the check of its
    read log and the check of its window do not fault, and they answer `true` if and only if, for every entry, no other
    context holds the slot and no commit has stamped it since the attempt made the read that the entry stands for.
    That includes entries whose slot the attempt has taken itself since, and entries that repeat a read. -/
theorem validation_is_exact {settings : Settings} {r : Runtime} (new : Runtime.new? settings = .ok r)
    (m : Memory) (actions : List (Action α ε)) (owners : actions.countP Action.isAnnounce < lockBit)
    (clock : ∀ n ≤ actions.length,
      ((Chronicle.start r m).run (actions.take n)).system.runtime.clock.now < lockBit - 1)
    (owner : OwnerId) (w : Worker) (here : ((Chronicle.start r m).run actions).system.worker? owner = some w)
    (active : w.context.phase = .active) :
    let t := (Chronicle.start r m).run actions
    t.Exact owner w.context.reads.entries
        (w.context.reads.validate t.system.runtime.table w.context.owner w.context.writes) ∧
      t.Exact owner w.context.window.entries
        (w.context.window.validate t.system.runtime.table w.context.owner w.context.writes) := by
  intro t
  have orderly : t.system.Orderly := (Chronicle.orderly_run new m owners).1
  have mindful : t.Mindful := Chronicle.mindful_run new m owners clock
  exact ⟨mindful.exact orderly here active fun _ => Or.inl, mindful.exact orderly here active fun _ => Or.inr⟩

/-- A regular context reads a field twice and then takes its slot, another context takes the slot of the second field
    that was read and gives it back, and the read log stays valid; the window of an elastic context that has read the
    same field is invalid once the slot is stamped. -/
theorem validation_is_exact_of_three :
    let actions : List (Action Unit Unit) :=
      [.announce, .announce, .announce, .register ⟨1⟩, .register ⟨2⟩, .register ⟨3⟩,
       .act ⟨1⟩ (.call (.start 0 .regular)), .act ⟨1⟩ (.call (.read ⟨16, 0⟩ .u64)),
       .act ⟨1⟩ (.call (.read ⟨16, 0⟩ .u64)), .act ⟨1⟩ (.call (.read ⟨16, 1⟩ .u64)),
       .act ⟨3⟩ (.call (.start 0 .elastic)), .act ⟨3⟩ (.call (.read ⟨16, 1⟩ .u64)),
       .act ⟨1⟩ (.call (.write ⟨16, 0⟩ (.u64 7))), .act ⟨2⟩ (.call (.start 0 .regular)),
       .act ⟨2⟩ (.call (.write ⟨16, 1⟩ (.u64 8))), .act ⟨2⟩ (.call .rollback)]
    let commits : List (Action Unit Unit) :=
      [.act ⟨2⟩ (.call (.start 1 .regular)), .act ⟨2⟩ (.call (.write ⟨16, 1⟩ (.u64 8))), .act ⟨2⟩ (.call .commit)]
    let t := (Chronicle.start smallRuntime pair).run actions
    let t' := (Chronicle.start smallRuntime pair).run (actions ++ commits)
    (∃ w ∈ t.system.worker? ⟨1⟩, w.context.reads.entries.length = 3 ∧
      ∀ e ∈ w.context.reads.entries, t.Untouched ⟨1⟩ e) ∧
    ∃ w ∈ t'.system.worker? ⟨3⟩, ∃ e ∈ w.context.window.entries, ¬ t'.Untouched ⟨3⟩ e := by
  intro actions commits t t'
  have regular : ∃ w ∈ t.system.worker? ⟨1⟩, w.context.phase = .active ∧ w.context.reads.entries.length = 3 ∧
      w.context.reads.validate t.system.runtime.table w.context.owner w.context.writes = .ok true := by decide +kernel
  obtain ⟨w, here, active, three, valid⟩ := regular
  have elastic : ∃ w ∈ t'.system.worker? ⟨3⟩, w.context.phase = .active ∧
      w.context.window.validate t'.system.runtime.table w.context.owner w.context.writes = .ok false := by
    decide +kernel
  obtain ⟨w', here', active', invalid⟩ := elastic
  obtain ⟨-, answer, checked, exact⟩ :=
    (validation_is_exact smallRuntime_new pair actions (by decide) (by decide +kernel) ⟨1⟩ w here active).1
  obtain ⟨-, answer', checked', exact'⟩ :=
    (validation_is_exact smallRuntime_new pair (actions ++ commits) (by decide) (by decide +kernel) ⟨3⟩ w' here'
      active').2
  have stays : answer = true := Except.ok.inj (checked.symm.trans valid)
  have fails : answer' = false := Except.ok.inj (checked'.symm.trans invalid)
  refine ⟨⟨w, here, three, exact.mp stays⟩, w', here', ?_⟩
  by_contra! untouched
  cases fails.symm.trans (exact'.mpr untouched)

/-! ## Validation that is skipped -/

/-- A commit whose stamp is the next one after the lower bound of its attempt stores its writes and checks nothing. -/
theorem Scope.commit_of_still {s : Scope} (active : s.context.phase = .active)
    (wrote : s.context.writes.isEmpty = false) (still : s.runtime.clock.now = s.context.lower)
    (small : s.runtime.clock.now + 1 < lockBit) (site : AbortSite) :
    s.commit site =
      Scope.storeWrites ⟨{ s.runtime with clock := ⟨s.context.lower + 1⟩ }, s.context⟩ (s.context.lower + 1) := by
  have ticks : s.runtime.clock.advance = (.ok (s.context.lower + 1), ⟨s.context.lower + 1⟩) := by
    rw [Clock.advance_eq small, still]
  have counted : counter (s.context.lower + 1) = .ok (s.context.lower + 1) := by
    rw [← still]
    exact congrArg Prod.fst (Clock.advance_eq small)
  simp only [commit, active, wrote, ticks, commitAt, counted, Bool.false_eq_true, ↓reduceIte]

namespace Chronicle

variable {t : Chronicle} {owner : OwnerId} {w : Worker} {e : ReadEntry}

/-- No commit has come between a read and now: the slot of the entry is free with the stamp that was seen, or an attempt
    that has not committed holds it, and remembers that stamp. -/
def Uncommitted (t : Chronicle) (e : ReadEntry) : Prop :=
  t.system.runtime.table.word e.slot = .free e.observed ∨
    ∃ o w, t.system.worker? o = some w ∧ w.context.phase = .active ∧
      t.system.runtime.table.word e.slot = .held o ∧ w.context.writes.stamp? e.slot = some e.observed

/-- A slot that carried a stamp at the current value of the clock still does so, or is held by an attempt that remembers
    the stamp. -/
theorem Mindful.uncommitted (mindful : t.Mindful) (orderly : t.system.Orderly)
    (here : t.system.worker? owner = some w) (active : w.context.phase = .active)
    (still : t.system.runtime.clock.now = w.context.lower) (remembers : w.context.Remembers e) :
    t.Uncommitted e := by
  have version : version t.commits e.slot = e.observed := by
    obtain ⟨q, records, began, past⟩ := ((mindful.attentive owner w here).tracks active e remembers).read
    have now : t.system.runtime.clock.now ≤ q.time := still.trans_le began
    have all : t.commits.filter (·.stamp ≤ q.time) = t.commits :=
      List.filter_eq_self.mpr fun x member => decide_eq_true ((mindful.stamped x member).trans now)
    rw [← records.version, all]
  cases word : t.system.runtime.table.word e.slot with
  | free stamp =>
    have same : stamp = e.observed := (mindful.free e.slot stamp word).symm.trans version
    exact Or.inl (same ▸ word)
  | held o =>
    cases there : t.system.worker? o with
    | none => exact absurd word (orderly.strangers o there e.slot)
    | some w' =>
      have owns := (orderly.word_iff there e.slot).mp word
      obtain ⟨stamp, remembered⟩ := Option.isSome_iff_exists.mp owns
      have same := mindful.remembered o w' there e.slot stamp remembered
      rw [version] at same
      exact Or.inr ⟨o, w', there, orderly.active_of_owns there owns, word, same ▸ remembered⟩

end Chronicle

/-- In every reachable state, for every active attempt in any mode that has written, if the clock is still at its lower
    bound: its commit takes the stamp after that and does not check its reads.  Each entry of its read log is as it was
    made: the slot is free with the stamp that was seen, or held, by the attempt or by another one that has not
    committed, with that stamp remembered.  So the check would not have faulted, and would have failed only for a slot
    that an attempt of another context holds. -/
theorem skipped_validation_finds_no_commit {settings : Settings} {r : Runtime} (new : Runtime.new? settings = .ok r)
    (m : Memory) (actions : List (Action α ε)) (owners : actions.countP Action.isAnnounce < lockBit)
    (clock : ∀ n ≤ actions.length,
      ((Chronicle.start r m).run (actions.take n)).system.runtime.clock.now < lockBit - 1)
    (owner : OwnerId) (w : Worker) (here : ((Chronicle.start r m).run actions).system.worker? owner = some w)
    (active : w.context.phase = .active) (wrote : w.context.writes.isEmpty = false)
    (still : ((Chronicle.start r m).run actions).system.runtime.clock.now = w.context.lower) :
    let t := (Chronicle.start r m).run actions
    let runtime := t.system.runtime
    (∀ site, (w.scope runtime).commit site =
      Scope.storeWrites ⟨{ runtime with clock := ⟨w.context.lower + 1⟩ }, w.context⟩ (w.context.lower + 1)) ∧
    (∀ e ∈ w.context.reads.entries, t.Uncommitted e) ∧
    ∃ valid, w.context.reads.validate runtime.table w.context.owner w.context.writes = .ok valid ∧
      (valid = false → ∃ e ∈ w.context.reads.entries, ∃ o w', o ≠ owner ∧ t.system.worker? o = some w' ∧
        w'.context.phase = .active ∧ runtime.table.word e.slot = .held o ∧
        w'.context.writes.stamp? e.slot = some e.observed) := by
  intro t runtime
  have orderly : t.system.Orderly := (Chronicle.orderly_run new m owners).1
  have mindful : t.Mindful := Chronicle.mindful_run new m owners clock
  have small : runtime.clock.now < lockBit - 1 := by
    have last := clock actions.length le_rfl
    rwa [List.take_length] at last
  have fresh : ∀ e ∈ w.context.reads.entries, t.Uncommitted e := fun e member =>
    mindful.uncommitted orderly here active still (Or.inl member)
  refine ⟨Scope.commit_of_still active wrote still (Nat.add_lt_of_lt_sub small), fresh, ?_⟩
  obtain ⟨valid, checked⟩ := allCurrent_ok w.context.owner w.context.writes fun e member =>
    (mindful.attentive owner w here).inside active e (Or.inl member)
  refine ⟨valid, checked, ?_⟩
  rintro rfl
  obtain ⟨e, member, stale⟩ := exists_of_allCurrent checked
  rcases fresh e member with free | ⟨o, w', there, active', word, remembers⟩
  · exact absurd (Or.inl free) stale
  · refine ⟨e, member, o, w', ?_, there, active', word, remembers⟩
    rintro rfl
    cases here.symm.trans there
    exact stale (Or.inr ⟨by rw [word, orderly.owners o w here], remembers⟩)

/-- A context reads a field after a commit to it and writes another one, and meanwhile a third context takes the slot of
    the field that was read: the check would fail for that slot, and the commit succeeds without it. -/
theorem skipped_validation_finds_no_commit_of_three :
    let actions : List (Action Unit Unit) :=
      [.announce, .announce, .announce, .register ⟨1⟩, .register ⟨2⟩, .register ⟨3⟩,
       .act ⟨3⟩ (.call (.start 0 .regular)), .act ⟨3⟩ (.call (.write ⟨16, 1⟩ (.u64 8))), .act ⟨3⟩ (.call .commit),
       .act ⟨1⟩ (.call (.start 0 .regular)), .act ⟨1⟩ (.call (.read ⟨16, 1⟩ .u64)),
       .act ⟨1⟩ (.call (.write ⟨16, 0⟩ (.u64 7))), .act ⟨2⟩ (.call (.start 0 .elastic)),
       .act ⟨2⟩ (.call (.write ⟨16, 1⟩ (.u64 9)))]
    let t := (Chronicle.start smallRuntime pair).run actions
    ∃ w ∈ t.system.worker? ⟨1⟩, w.context.lower = 1 ∧
      ((w.scope t.system.runtime).commit .commit).1 = .answered (.verdict true) ∧
      w.context.reads.validate t.system.runtime.table w.context.owner w.context.writes = .ok false ∧
      ∃ e ∈ w.context.reads.entries, t.Uncommitted e ∧ ∃ o ≠ ⟨1⟩, t.system.runtime.table.word e.slot = .held o := by
  intro actions t
  have found : ∃ w ∈ t.system.worker? ⟨1⟩, w.context.phase = .active ∧ w.context.writes.isEmpty = false ∧
      t.system.runtime.clock.now = w.context.lower ∧ w.context.lower = 1 ∧
      ((w.scope t.system.runtime).commit .commit).1 = .answered (.verdict true) ∧
      w.context.reads.validate t.system.runtime.table w.context.owner w.context.writes = .ok false := by
    decide +kernel
  obtain ⟨w, here, active, wrote, still, lower, succeeds, invalid⟩ := found
  obtain ⟨-, fresh, valid, checked, disturbed⟩ := skipped_validation_finds_no_commit smallRuntime_new pair actions
    (by decide) (by decide +kernel) ⟨1⟩ w here active wrote still
  obtain ⟨e, member, o, -, other, -, -, word, -⟩ := disturbed (Except.ok.inj (checked.symm.trans invalid))
  exact ⟨w, here, lower, succeeds, invalid, e, member, fresh e member, o, other, word⟩

end TransactionalMemory
