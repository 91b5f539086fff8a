import TransactionalMemory.Proofs.Recall
import TransactionalMemory.Proofs.Snapshots

/-! # The bound of a snapshot and the reads that it covers

The bound of a snapshot moves only past reads that are in the read log: when it moves, no read there has been
overtaken up to the new bound (`Chronicle.CurrentAsOf`).  That holds of every context at every moment of a run
(`Chronicle.Vigilant`), because the bound of a context that is not fast moves only after a check of its read log, the
first write moves the window there only after a check of the window, and a commit after the check has a stamp beyond
the clock that the check has seen.

A read from memory is accepted only under a version up to the bound, so what an attempt reads while the bound stays is
what memory held at the bound (`Seat.Within`), like the reads that the check has found current
(`extension_covers_read_log`).  Reads in the window are another matter: a client can ask a fast context for an
extension, which does not look at them (`extension_outruns_window`).
-/

namespace TransactionalMemory

variable {α ε : Type}

instance (x : Commit) (slotOf : Location → Nat) (slot : Nat) : Decidable (x.Wrote slotOf slot) :=
  inferInstanceAs (Decidable (∃ e ∈ x.context.writes.entries, slotOf e.location = slot))

namespace Chronicle

variable {t t' : Chronicle} {owner : OwnerId} {w : Worker} {e : ReadEntry} {q : Reading} {bound : Nat}

/-! ## Reads that are current as of a bound -/

/-- No commit has stamped the slot of a read between the stamp that the read has seen and the bound. -/
def CurrentAsOf (t : Chronicle) (e : ReadEntry) (bound : Nat) : Prop :=
  ∀ x ∈ t.commits, x.Wrote t.system.runtime.table.slotOf e.slot → ¬ (e.observed < x.stamp ∧ x.stamp ≤ bound)

instance : Decidable (t.CurrentAsOf e bound) :=
  inferInstanceAs (Decidable (∀ x ∈ t.commits, x.Wrote t.system.runtime.table.slotOf e.slot →
    ¬ (e.observed < x.stamp ∧ x.stamp ≤ bound)))

/-- A read whose slot still has the version that the read has seen is current as of any bound. -/
theorem Versioned.currentAsOf (versioned : t.Versioned) (same : version t.commits e.slot = e.observed)
    (bound : Nat) : t.CurrentAsOf e bound := by
  rintro x member wrote ⟨after, -⟩
  rcases largestStamp_version versioned.ordered versioned.logs e.slot with ⟨y, -, -, -, largest⟩ | ⟨-, none⟩
  · exact absurd after (Nat.not_lt.mpr (same ▸ largest x member wrote))
  · exact none x member wrote

theorem Versioned.version_of_current (versioned : t.Versioned) (here : t.system.worker? owner = some w)
    (current : e.Current t.system.runtime.table w.context.owner w.context.writes) :
    version t.commits e.slot = e.observed := by
  rcases current with free | ⟨-, own⟩
  · exact versioned.free _ _ free
  · exact versioned.remembered owner w here _ _ own

theorem CurrentAsOf.grown (current : t.CurrentAsOf e bound) (grown : Grown t t')
    (past : bound ≤ t.system.runtime.clock.now) : t'.CurrentAsOf e bound := by
  obtain ⟨new, commits, later⟩ := grown.later
  rintro x member wrote ⟨after, within⟩
  rw [commits] at member
  rw [LockTable.slotOf_congr grown.bits] at wrote
  rcases List.mem_append.mp member with before | added
  · exact current x before wrote ⟨after, within⟩
  · exact absurd (within.trans past) (Nat.not_le.mpr (later x added))

/-! ## What a context has under watch -/

/-- What is known of the logs of reads of an active context.  As long as it is fast, its reads are in the window; once
    it is not, they are in the read log, unless the attempt is to be aborted.  The read log is current as of the
    bound, and as of the bound that a call is about to move to. -/
structure Vigilant (t : Chronicle) (owner : OwnerId) (w : Worker) : Prop where
  fast : w.context.phase = .active → w.context.isFast = true → w.context.reads.entries = []
  slow : w.context.phase = .active → w.context.isFast = false →
    w.context.window.entries = [] ∨ (t.attempts owner).broken = true ∨ Pending.isAbort w.pending
  logged : w.context.phase = .active → ∀ e ∈ w.context.reads.entries, t.CurrentAsOf e w.context.upper
  waits : w.context.phase = .active → ∀ candidate next, w.pending = some (.extend candidate next) →
    ∀ e ∈ w.context.reads.entries, t.CurrentAsOf e candidate

/-- An abort that is taken up ends the attempt, or meets a fault and leaves the attempt standing. -/
theorem isAbort_or_broken {d : Seat} {r : Runtime} (h : (w.scope r).Holding) (before : w.context.phase = .active)
    (same : d.pending = w.pending) (aborts : Pending.isAbort w.pending) (action : WorkerAction α ε)
    (active : (w.step r action).2.2.context.phase = .active) :
    d.breaksAbort (w.step r action).1 = true ∨ Pending.isAbort (w.step r action).2.2.pending := by
  have busy : w.pending ≠ none := fun free => by
    rw [free] at aborts
    exact aborts
  -- While the abort is left to be taken up the context is busy, so no other step is made.
  have dispatch := w.dispatch_step r action
  generalize w.step r action = out at dispatch active ⊢
  cases dispatch with
  | refuse => exact Or.inr aborts
  | resume rest waiting =>
    rw [waiting] at aborts same
    cases rest with
    | abort c site =>
      rw [Worker.resume_eq_advance rfl,
        show (w.scope r).resume (.abort c site) = (w.scope r).finishAbort c site from rfl] at active ⊢
      rcases h.finishAbort c site with ⟨f, faulted⟩ | ⟨s, ended, -, -, aborted⟩
      · rw [faulted]
        have told : (w.advance (α := α) (ε := ε) (Pending.abort c site).isOfBlock
            (.faulted f, w.scope r)).1 = .faulted f := by
          unfold Worker.advance
          dsimp only
          split <;> rfl
        rw [told, Seat.breaksAbort, same]
        exact Or.inl rfl
      · rw [ended] at active
        have landed := congrArg (·.context.phase) (w.landing_advance (α := α) (ε := ε)
          (Pending.abort c site).isOfBlock (site.report c, s))
        exact absurd ((landed.symm.trans active).symm.trans (aborted before)) Phase.noConfusion
    | _ => exact absurd aborts id
  | call idle => exact absurd (Worker.free_of_not_isBusy idle) busy
  | enter idle => exact absurd (Worker.free_of_not_isBusy idle) busy
  | leave inside => exact absurd (Worker.free_of_inBody inside) busy
  | decide free => exact absurd free busy
  | unwind inside => exact absurd (Worker.free_of_atClient inside) busy

/-- Between calls, the window is empty, unless the context is fast or an abort of the attempt has met a fault. -/
theorem Vigilant.window (h : t.Vigilant owner w) (active : w.context.phase = .active) (free : w.pending = none) :
    w.context.window.entries = [] ∨ w.context.isFast = true ∨ (t.attempts owner).broken = true := by
  cases fast : w.context.isFast with
  | true => exact Or.inr (Or.inl rfl)
  | false =>
    rcases h.slow active fast with empty | broken | aborts
    · exact Or.inl empty
    · exact Or.inr (Or.inr broken)
    · rw [free] at aborts
      exact absurd aborts id

theorem Vigilant.of_empty (reads : w.context.reads.entries = []) (window : w.context.window.entries = []) :
    t.Vigilant owner w where
  fast _ _ := reads
  slow _ _ := Or.inl window
  logged _ := by
    rw [reads]
    exact List.forall_mem_nil _
  waits _ _ _ _ := by
    rw [reads]
    exact List.forall_mem_nil _

theorem Vigilant.beside (h : t.Vigilant owner w) (attentive : t.Attentive owner w) (grown : Grown t t')
    (attempts : t'.attempts owner = t.attempts owner) : t'.Vigilant owner w where
  fast := h.fast
  slow active slow := by
    rw [attempts]
    exact h.slow active slow
  logged active e member := (h.logged active e member).grown grown attentive.upper
  waits active candidate next waiting e member :=
    (h.waits active candidate next waiting e member).grown grown (attentive.awaits _ waiting candidate next rfl).2.1

theorem Vigilant.registered (t : Chronicle) (owner o : OwnerId) (window : Window) :
    t.Vigilant owner { context := { owner := o, window } } :=
  ⟨nofun, nofun, nofun, nofun⟩

section

variable (h : t.Vigilant owner w) {action : WorkerAction α ε}
  (candid : w.Candid t.system.runtime action (w.step t.system.runtime action))
  (active : (w.step t.system.runtime action).2.2.context.phase = .active)

include h candid active

/-- The window is emptied by the first write, and is not filled again before the next attempt. -/
theorem Vigilant.slow_step (holding : (w.scope t.system.runtime).Holding)
    (slow : (w.step t.system.runtime action).2.2.context.isFast = false) :
    (w.step t.system.runtime action).2.2.context.window.entries = [] ∨
      ((t.attempts owner).broken || (t.seat owner w).breaksAbort (w.step t.system.runtime action).1) = true ∨
        Pending.isAbort (w.step t.system.runtime action).2.2.pending := by
  rcases candid.watchful.slow active slow with empty | ⟨before, window⟩ | aborts
  · exact Or.inl empty
  · rw [window]
    rcases h.slow (candid.active active) before with empty | broken | aborts
    · exact Or.inl empty
    · exact Or.inr (Or.inl (Bool.or_eq_true_iff.mpr (Or.inl broken)))
    · rcases isAbort_or_broken (d := t.seat owner w) holding (candid.active active) rfl aborts action active with
        breaks | aborts
      · exact Or.inr (Or.inl (Bool.or_eq_true_iff.mpr (Or.inr breaks)))
      · exact Or.inr (Or.inr aborts)
  · exact Or.inr (Or.inr aborts)

variable (mindful : t.Mindful) (here : t.system.worker? owner = some w)

include mindful here

/-- The bound moves only where the read log is known to be current, and what is logged is current now. -/
theorem Vigilant.logged_step {e : ReadEntry}
    (member : e ∈ (w.step t.system.runtime action).2.2.context.reads.entries) :
    t.CurrentAsOf e (w.step t.system.runtime action).2.2.context.upper := by
  rcases candid.watchful.logged e member with before | seen
  · rcases candid.watchful.bound with same | fast | ⟨next, waiting⟩
    · rw [same]
      exact h.logged (candid.active active) e before
    -- A fast context has no read log yet that the bound could leave behind.
    · rw [h.fast (candid.active active) fast] at before
      cases before
    · exact h.waits (candid.active active) _ next waiting e before
  · exact mindful.currentAsOf (mindful.version_of_current here seen) _

/-- A call that stands before the bound moves has found the read log to be current. -/
theorem Vigilant.waits_step {candidate : Nat} {next : AfterExtension}
    (waiting : (w.step t.system.runtime action).2.2.pending = some (.extend candidate next)) {e : ReadEntry}
    (member : e ∈ (w.step t.system.runtime action).2.2.context.reads.entries) :
    t.CurrentAsOf e candidate ∧ candidate ≤ t.system.runtime.clock.now := by
  have before : (w.step t.system.runtime action).2.2 = w →
      t.CurrentAsOf e candidate ∧ candidate ≤ t.system.runtime.clock.now := fun same => by
    rw [same] at active waiting member
    exact ⟨h.waits active candidate next waiting e member,
      ((mindful.attentive owner w here).awaits _ waiting candidate next rfl).2.1⟩
  rcases candid.watchful.checked candidate next waiting with same | ⟨reads, seen⟩
  · exact before same
  · rcases candid.waits candidate next waiting with same | ⟨now, -⟩
    · exact before same
    · exact ⟨mindful.currentAsOf (mindful.version_of_current here (seen e (reads ▸ member))) candidate, now.le⟩

end

theorem Vigilant.act (h : t.Vigilant owner w) (orderly : t.system.Orderly) (mindful : t.Mindful)
    (small : t.system.runtime.clock.now < lockBit - 1) (here : t.system.worker? owner = some w)
    (action : WorkerAction α ε) :
    (t.step (.act owner action)).Vigilant owner (w.step t.system.runtime action).2.2 := by
  have grown := grown_step orderly small (.act owner action : Action α ε)
  have attentive := mindful.attentive owner w here
  have holding := orderly.holding owner w here
  have attempts : (t.step (.act owner action)).attempts owner =
      (t.seat owner w).attemptAfter action (w.step t.system.runtime action).1 := by
    rw [step_act here]
    exact if_pos rfl
  cases w.course_step holding attentive.upper attentive.inside attentive.awaits action with
  | begins renewed free =>
    exact .of_empty (List.eq_nil_iff_forall_not_mem.mpr fun e member => renewed.forgets e (Or.inl member))
      (List.eq_nil_iff_forall_not_mem.mpr fun e member => renewed.forgets e (Or.inr member))
  | goes candid =>
    refine ⟨fun active fast => ?_, fun active slow => ?_, fun active e member => ?_,
      fun active candidate next waiting e member => ?_⟩
    · obtain ⟨before, reads⟩ := candid.watchful.fast active fast
      rw [reads]
      exact h.fast (candid.active active) before
    · rw [attempts, Seat.attemptAfter, if_neg (Bool.eq_false_iff.mp candid.plain)]
      exact h.slow_step candid active holding slow
    · exact (h.logged_step candid active mindful here member).grown grown candid.past
    · obtain ⟨current, past⟩ := h.waits_step candid active mindful here waiting member
      exact current.grown grown past

/-- In every reachable state, every context keeps its reads under watch. -/
theorem vigilant_run {settings : Settings} {r : Runtime} (new : Runtime.new? settings = .ok r) (m : Memory)
    {actions : List (Action α ε)} (owners : actions.countP Action.isAnnounce < lockBit)
    (clock : ∀ n ≤ actions.length,
      ((start r m).run (actions.take n)).system.runtime.clock.now < lockBit - 1) :
    ((start r m).run actions).Mindful ∧ ∀ o w, ((start r m).run actions).system.worker? o = some w →
      ((start r m).run actions).Vigilant o w := by
  -- By induction on the run: a step changes the logs of the worker that makes it, and a commit of another one has a stamp
  -- beyond the bounds of all.
  refine induct_run (P := fun t => t.Mindful ∧ ∀ o w, t.system.worker? o = some w → t.Vigilant o w) new m owners clock
    ⟨mindful_start new m, fun o w there => ?_⟩ ?_
  · simp [start, System.worker?] at there
  · rintro t a announced orderly turn small ⟨mindful, vigilant⟩
    have grown := grown_step orderly small a
    refine ⟨mindful.step orderly turn small, forall_worker_step orderly vigilant ?_ ?_ ?_⟩
    · rintro o w action rfl here vigilant
      exact vigilant.act orderly mindful small here action
    · intro o w other here vigilant
      exact vigilant.beside (mindful.attentive o w here) grown (attempts_step_of_not_act other)
    · exact fun o window => .registered ..

end Chronicle

/-! ## Reads under a bound that stays -/

namespace Seat

variable {d d' : Seat} {number count bound : Nat} {m₀ : Memory} {allowed : Mode → Prop}

/-- The attempt has that number and, as long as its bound is not beyond the given one, what it has read from memory
    after its first accesses is what memory held at that bound; or it is a later attempt. -/
structure Within (m₀ : Memory) (number count bound : Nat) (d : Seat) : Prop where
  past : bound ≤ d.runtime.clock.now
  holds : number < d.attempt.number ∨ number = d.attempt.number ∧ count ≤ d.attempt.accesses.length ∧
    (d.context.phase = .active → d.context.upper ≤ bound →
      ∀ q ∈ fromMemory (d.attempt.accesses.drop count), q.HoldsIn (d.content m₀ bound))

/-- One more access of the attempt, with a bound that has not gone back. -/
theorem Within.access (within : d.Within m₀ number count bound) {a : Access} (past : bound ≤ d'.runtime.clock.now)
    (attempt : d'.attempt = d.attempt.add a) (commits : d'.commits = d.commits)
    (phase : d'.context.phase = d.context.phase) (upper : d.context.upper ≤ d'.context.upper)
    (holds : d'.context.upper ≤ bound → ∀ q ∈ fromMemory [a], q.HoldsIn (d.content m₀ bound)) :
    d'.Within m₀ number count bound where
  past := past
  holds := by
    rw [attempt]
    refine within.holds.imp id fun ⟨same, le, before⟩ => ⟨same, ?_, fun active reached q member => ?_⟩
    · exact le.trans (List.sublist_append_left _ _).length_le
    · rw [Seat.content, commits]
      rw [Attempt.add, List.drop_append_of_le_length le, fromMemory_append] at member
      rcases List.mem_append.mp member with old | last
      · exact before (phase ▸ active) (upper.trans reached) q old
      · exact holds reached q last

/-- No access, with a bound that has not gone back. -/
theorem Within.still (within : d.Within m₀ number count bound) (past : bound ≤ d'.runtime.clock.now)
    (number' : d'.attempt.number = d.attempt.number) (accesses : d'.attempt.accesses = d.attempt.accesses)
    (holds : d'.context.phase = .active → d'.commits = d.commits ∧ d.context.phase = .active ∧
      d.context.upper ≤ d'.context.upper) : d'.Within m₀ number count bound where
  past := past
  holds := by
    rw [number', accesses]
    refine within.holds.imp id fun ⟨same, le, before⟩ => ⟨same, le, fun active reached q member => ?_⟩
    obtain ⟨commits, phase, upper⟩ := holds active
    rw [Seat.content, commits]
    exact before phase (upper.trans reached) q member

end Seat

/-- A read from memory is accepted only if its slot has a version up to the bound. -/
theorem Sound.within_move {d d' : Seat} {number count bound : Nat} {m₀ : Memory} {allowed : Mode → Prop}
    (h : Sound allowed m₀ d) (move : Move allowed d d') (within : d.Within m₀ number count bound) :
    d'.Within m₀ number count bound := by
  -- Only a read from memory adds a reading, and it is accepted only if the version of its slot is within the bound.
  have past := within.past
  have same : d.context.upper ≤ d.context.upper := Nat.le_refl _
  cases move with
  | count now published tally conflict extended broken later =>
    exact within.still (past.trans later) rfl rfl fun active => ⟨rfl, active, same⟩
  | turn => exact within.still past rfl rfl fun active => ⟨rfl, active, same⟩
  | suspend => exact within.still past rfl rfl fun active => ⟨rfl, active, same⟩
  | adopt candidate next waiting =>
    exact within.still past rfl rfl fun active => ⟨rfl, active, (h.waits candidate next waiting).grows⟩
  | slide => exact within.still past rfl rfl fun active => ⟨rfl, active, h.dated.upper_le⟩
  | readOwn l kind v free logged =>
    refine within.access past rfl rfl rfl same fun _ q member => ?_
    rw [fromMemory_of_buffered (Seat.source_of_logged logged)] at member
    cases member
  | readHeld l kind v stamp free held unlogged recent loaded =>
    refine within.access past rfl rfl rfl same fun reached q member => ?_
    rw [fromMemory_of_not_buffered (Seat.source_of_unlogged unlogged)] at member
    rw [List.mem_singleton.mp member]
    refine h.holds_at_of_version ?_ (Memory.peek_eq_ok_iff.mp loaded).2
    exact (h.owning.remembered _ _ held).le.trans (recent.trans reached)
  | readFree l kind v stamp free slow unheld word recent loaded =>
    refine within.access past rfl rfl rfl same fun reached q member => ?_
    rw [fromMemory_of_not_buffered (Seat.source_of_unlogged (h.owning.wellFormed.value?_of_not_held unheld))] at member
    rw [List.mem_singleton.mp member]
    exact h.holds_of_free word loaded (recent.trans reached)
  | readFast l kind v stamp free fast unheld word recent loaded =>
    refine within.access past rfl rfl rfl same fun reached q member => ?_
    rw [fromMemory_of_not_buffered (Seat.source_of_unlogged (h.owning.wellFormed.value?_of_not_held unheld))] at member
    rw [List.mem_singleton.mp member]
    exact h.holds_of_free word loaded (recent.trans reached)
  | writeHeld => exact within.access past rfl rfl rfl same fun _ _ member => by cases member
  | writeFree => exact within.access past rfl rfl rfl same fun _ _ member => by cases member
  | writeFirst => exact within.access past rfl rfl rfl same fun _ _ member => by cases member
  | writeStale => exact within.still past rfl rfl fun active => ⟨rfl, active, same⟩
  | begin =>
    refine ⟨past, Or.inl ?_⟩
    show number < d.attempt.number + 1
    rcases within.holds with later | ⟨same, -⟩ <;> omega
  | abandon => exact within.still past rfl rfl fun active => absurd active Phase.noConfusion
  | commitReads => exact within.still past rfl rfl fun active => absurd active Phase.noConfusion
  | commitWrites stamp table memory free active wrote next =>
    refine within.still ?_ rfl rfl fun active => absurd active Phase.noConfusion
    show bound ≤ stamp
    omega

namespace Chronicle

variable {t t' : Chronicle} {owner : OwnerId} {w : Worker} {e : ReadEntry} {q : Reading} {m₀ : Memory}
  {allowed : Mode → Prop} {number count bound : Nat}

theorem lasting_within (allowed : Mode → Prop) (m₀ : Memory) (owner : OwnerId) (number count bound : Nat) :
    Lasting allowed m₀ owner (·.Within m₀ number count bound) where
  own h move within := h.within_move move within
  beside {t t' w} grown attempts within := by
    obtain ⟨new, commits, later⟩ := grown.later
    refine ⟨within.past.trans grown.clock, ?_⟩
    simp only [seat, attempts, Seat.content, commits,
      contentAt_append fun x member => lt_of_le_of_lt within.past (later x member)]
    exact within.holds

/-- A read that a current entry stands for is what memory holds now. -/
theorem holds_now_of_records (records : t.Records owner e q) (h : t.Coherent allowed m₀)
    (here : t.system.worker? owner = some w) (active : w.context.phase = .active)
    (same : version t.commits e.slot = e.observed) : q.HoldsIn t.system.runtime.memory.words := by
  have sound := (h.seats owner w here).sound
  have taken : q ∈ (t.seat owner w).taken :=
    List.mem_filterMap.mpr ⟨.read q, records.made, if_neg records.source⟩
  obtain ⟨-, -, holds⟩ := sound.dated.time active q taken
  refine sound.holds_now_of_version ?_ holds
  -- The version that the read has found is still the one of the slot.
  have slot : t.system.runtime.table.slotOf q.location = e.slot := by rw [records.location, records.slot]
  show version t.commits (t.system.runtime.table.slotOf q.location) ≤ q.time
  rw [slot, same, ← records.version]
  exact version_le (fun x member => of_decide_eq_true (List.mem_filter.mp member).2) e.slot

/-- The reads that are logged stand for reads of the attempt, and if they are current, memory still holds what these
    have found. -/
theorem holds_now_of_logged (mindful : t.Mindful) (h : t.Coherent allowed m₀)
    (here : t.system.worker? owner = some w) (active : w.context.phase = .active)
    (current : ∀ e ∈ w.context.reads.entries, e.Current t.system.runtime.table w.context.owner w.context.writes) :
    ∀ e ∈ w.context.reads.entries, (∃ q, t.Records owner e q) ∧
      ∀ q, t.Records owner e q → q.HoldsIn t.system.runtime.memory.words := by
  refine fun e member => ⟨?_, fun q records => ?_⟩
  · obtain ⟨q, records, -⟩ := ((mindful.attentive owner w here).tracks active e (Or.inl member)).read
    exact ⟨q, records⟩
  · exact holds_now_of_records records h here active (mindful.version_of_current here (current e member))

end Chronicle

/-! ## One extension -/

namespace Worker

variable {w : Worker} {r : Runtime}

/-- Between calls, an extension is refused by the check of the read log, or stands at its event after the check. -/
theorem step_extend (idle : w.isBusy = false) (inside : ∀ e ∈ w.context.reads.entries, e.slot < r.table.size) :
    w.step (α := α) (ε := ε) r (.call .extend) = (.replied (.verdict false), r, w) ∨
    (∀ e ∈ w.context.reads.entries, e.Current r.table w.context.owner w.context.writes) ∧
      w.step (α := α) (ε := ε) r (.call .extend) =
        (.standing (.extended w.context.owner w.context.upper r.clock.now), r,
          { w with pending := some (.extend r.clock.now .answer) }) := by
  obtain ⟨context, pending, blocks⟩ := w
  obtain rfl : pending = none := free_of_not_isBusy idle
  obtain ⟨b, checked⟩ := allCurrent_ok context.owner context.writes inside
  have checked : context.reads.validate r.table context.owner context.writes = .ok b := checked
  rw [step_call_of_idle idle]
  simp only [Scope.perform, Scope.extend, Scope.tryExtend, scope, checked]
  cases b with
  | false => exact Or.inl rfl
  | true => exact Or.inr ⟨current_of_allCurrent checked, rfl⟩

theorem step_resume_extension {candidate : Nat} (waiting : w.pending = some (.extend candidate .answer)) :
    w.step (α := α) (ε := ε) r .resume = (.replied (.verdict true), r,
      { w with context := { w.context with upper := candidate }, pending := none }) := by
  rw [step_resume_of_waiting waiting]
  rfl

end Worker

namespace Chronicle

/-- What the attempt of an owner, as long as it has the bound, has read from memory since the first of two moments is
    what the words hold. -/
def ReadsSince (t t' : Chronicle) (owner : OwnerId) (bound : Nat) (words : Words) : Prop :=
  ∀ w, t'.system.worker? owner = some w → w.context.phase = .active → w.context.upper = bound →
    (t'.attempts owner).number = (t.attempts owner).number →
    ∀ q ∈ fromMemory ((t'.attempts owner).accesses.drop (t.attempts owner).accesses.length), q.HoldsIn words

section

variable {settings : Settings} {r : Runtime} (new : Runtime.new? settings = .ok r) {m : Memory} {owner : OwnerId}
  {w : Worker} {before after : List (Action α ε)}

include new

/-- Memory is what the commits up to the clock have left, and stays so whatever is committed later. -/
theorem words_eq_contentAt (limits : WithinLimits (start r m).system (before ++ after)) :
    ((start r m).run before).system.runtime.memory.words =
      contentAt m.words ((start r m).run (before ++ after)).commits
        ((start r m).run before).system.runtime.clock.now := by
  obtain ⟨added, commits, later⟩ := (grown_run new before after limits).later
  rw [commits, contentAt_append later]
  exact (coherent_run_any new limits.of_append).1.ledger.contentAt_now.symm

theorem readsSince_run (limits : WithinLimits (start r m).system (before ++ after))
    (here : ((start r m).run before).system.worker? owner = some w) {bound : Nat}
    (past : bound ≤ ((start r m).run before).system.runtime.clock.now) :
    ((start r m).run before).ReadsSince ((start r m).run (before ++ after)) owner bound
      (contentAt m.words ((start r m).run (before ++ after)).commits bound) := by
  intro w' there active reached same
  have coherent := (coherent_run_any new limits.of_append).1
  have first : (((start r m).run before).seat owner w).Within m (((start r m).run before).attempts owner).number
      (((start r m).run before).attempts owner).accesses.length bound := by
    refine ⟨past, Or.inr ⟨rfl, Nat.le_refl _, fun _ _ q member => ?_⟩⟩
    rw [seat, List.drop_length] at member
    cases member
  have passed := (coherent.passed here first).run new (lasting_within ..) after limits
  rcases (passed.holds w' there).holds with later | ⟨-, -, holds⟩
  · exact absurd same later.ne'
  · exact holds active reached.le

/-- An extension that stands at its event moves the bound when it is taken up, whatever others have done since, and
    the read log is current as of the new bound. -/
theorem resume_extension (owners : (before ++ after).countP Action.isAnnounce < lockBit)
    (clock : ∀ n ≤ (before ++ after).length,
      ((start r m).run ((before ++ after).take n)).system.runtime.clock.now < lockBit - 1)
    (others : ∀ a ∈ after, a.owner? ≠ some owner) (here : ((start r m).run before).system.worker? owner = some w)
    (active : w.context.phase = .active) {candidate : Nat} (waiting : w.pending = some (.extend candidate .answer)) :
    let t := (start r m).run (before ++ after ++ [Action.act owner .resume])
    (((start r m).run (before ++ after)).system.step (.act owner .resume : Action α ε)).1 =
        .replied (.verdict true) ∧
      t.system.worker? owner =
        some { w with context := { w.context with upper := candidate }, pending := none } ∧
      candidate ≤ t.system.runtime.clock.now ∧ ∀ e ∈ w.context.reads.entries, t.CurrentAsOf e candidate := by
  intro t
  have there := (kept_of_others new m before owners others here).1
  have orderly := (orderly_run new m owners).1
  obtain ⟨mindful, vigilant⟩ := vigilant_run new m owners clock
  have small := clock _ (Nat.le_refl _)
  rw [List.take_length] at small
  have grown := grown_step orderly small (.act owner .resume : Action α ε)
  rw [← run_snoc] at grown
  obtain ⟨-, past, -⟩ := (mindful.attentive owner w there).awaits _ waiting candidate .answer rfl
  refine ⟨?_, ?_, past.trans grown.clock, fun e member => ?_⟩
  · rw [response_step_act there, Worker.step_resume_extension waiting]
  · rw [show t = _ from run_snoc .., worker?_step_act there, Worker.step_resume_extension waiting]
  · exact ((vigilant owner w there).waits active candidate .answer waiting e member).grown grown past

end

end Chronicle

/-- An extension never outruns the read log.  In a run of any contexts, whatever faults they meet, an extension of an
    active attempt that is not inside a call is answered: with `false`, and then nothing has changed, or with `true`
    once it has stood at its event, however others go on in between.  Then the bound is the value of the clock at the
    call, nothing else has changed in the context, and no read of the read log was overtaken up to the bound: its slot
    was not stamped by a commit between the stamp that the read has seen and the bound.  The window is not looked at;
    it is empty, unless the attempt is elastic and has not written, or one of its aborts was cut short by a fault.

    If all fields that are written exist, the reads of the read log, and all that the attempt reads from memory under
    this bound, are from one committed memory, which is memory at the time of the call. -/
theorem extension_covers_read_log {settings : Settings} {r : Runtime} (new : Runtime.new? settings = .ok r)
    (m : Memory) (actions between : List (Action α ε)) (owner : OwnerId)
    (others : ∀ a ∈ between, a.owner? ≠ some owner)
    (owners : (actions ++ [Action.act owner (.call .extend)] ++ between).countP Action.isAnnounce < lockBit)
    (clock : ∀ n ≤ (actions ++ [Action.act owner (.call .extend)] ++ between).length,
      ((Chronicle.start r m).run
        ((actions ++ [Action.act owner (.call .extend)] ++ between).take n)).system.runtime.clock.now < lockBit - 1)
    (w : Worker) (here : ((Chronicle.start r m).run actions).system.worker? owner = some w)
    (active : w.context.phase = .active) (idle : w.isBusy = false) :
    let called := actions ++ [Action.act owner (.call .extend)] ++ between
    let resumed := called ++ [Action.act owner .resume]
    let t := (Chronicle.start r m).run actions
    let t' := (Chronicle.start r m).run resumed
    let bound := t.system.runtime.clock.now
    let asked := t.system.step (.act owner (.call .extend) : Action α ε)
    (w.context.window.entries = [] ∨ w.context.isFast = true ∨ (t.attempts owner).broken = true) ∧
    (asked.1 = .replied (.verdict false) ∧ asked.2.runtime = t.system.runtime ∧
        (∀ o, asked.2.worker? o = t.system.worker? o) ∨
      asked.1 = .standing (.extended owner w.context.upper bound) ∧
        (((Chronicle.start r m).run called).system.step (.act owner .resume : Action α ε)).1 =
          .replied (.verdict true) ∧
        t'.system.worker? owner = some { w with context := { w.context with upper := bound } } ∧
        (∀ e ∈ w.context.reads.entries, t'.CurrentAsOf e bound) ∧
        ∀ later : List (Action α ε), WithinLimits (Chronicle.start r m).system (resumed ++ later) →
          let t'' := (Chronicle.start r m).run (resumed ++ later)
          t.system.runtime.memory.words = contentAt m.words t''.commits bound ∧
          (∀ e ∈ w.context.reads.entries, (∃ q, t.Records owner e q) ∧
            ∀ q, t.Records owner e q → q.HoldsIn t.system.runtime.memory.words) ∧
          t'.ReadsSince t'' owner bound t.system.runtime.memory.words) := by
  intro called resumed t t' bound asked
  have owners₀ : actions.countP Action.isAnnounce < lockBit := by
    rw [List.append_assoc, List.countP_append] at owners
    omega
  have clock₀ := forall_take_of_append
    (P := fun pre => ((Chronicle.start r m).run pre).system.runtime.clock.now < lockBit - 1)
    (List.append_assoc actions _ between ▸ clock)
  have orderly := (Chronicle.orderly_run new m owners₀).1
  obtain ⟨mindful, vigilant⟩ := Chronicle.vigilant_run new m owners₀ clock₀
  have free := Worker.free_of_not_isBusy idle
  have inside : ∀ e ∈ w.context.reads.entries, e.slot < t.system.runtime.table.size :=
    fun e member => (mindful.attentive owner w here).inside active e (Or.inl member)
  have step : asked = _ := System.act_eq here (.call .extend)
  refine ⟨(vigilant owner w here).window active free, ?_⟩
  rcases w.step_extend (α := α) (ε := ε) idle inside with refused | ⟨current, stands⟩
  · left
    rw [step, refused]
    refine ⟨rfl, rfl, fun o => ?_⟩
    rw [System.worker?_setWorker]
    split
    · next same => exact same ▸ here.symm
    · rfl
  · right
    have standing := Chronicle.worker?_step_act here (.call .extend : WorkerAction α ε)
    rw [stands, ← Chronicle.run_snoc] at standing
    obtain ⟨told, there, past, covered⟩ := Chronicle.resume_extension new owners clock others standing active rfl
    rw [step, stands, orderly.owners owner w here]
    refine ⟨rfl, told, ?_, covered, fun later limits => ?_⟩
    · rw [there, free]
    · have rest : resumed ++ later =
          actions ++ ([Action.act owner (.call .extend)] ++ between ++ [Action.act owner .resume] ++ later) := by
        simp only [resumed, called, List.append_assoc]
      have limits₀ : WithinLimits (Chronicle.start r m).system (actions ++ _) := rest ▸ limits
      -- Later commits have stamps beyond the clock at the call, so what the earlier ones have left is memory then.
      have memory := Chronicle.words_eq_contentAt new limits₀
      rw [← rest] at memory
      have coherent := (Chronicle.coherent_run_any new limits₀.of_append).1
      refine ⟨memory, Chronicle.holds_now_of_logged mindful coherent here active current, ?_⟩
      rw [memory]
      exact Chronicle.readsSince_run new limits there past

/-- The window is not looked at.  An elastic context reads one field, another context commits to both, and the
    extension succeeds all the same: the read was overtaken, and the other field is accepted under the new bound,
    though no committed memory ever held both values. -/
theorem extension_outruns_window :
    let actions : List (Action Unit Unit) :=
      [.announce, .announce, .register ⟨1⟩, .register ⟨2⟩,
       .act ⟨1⟩ (.call (.start 0 .elastic)), .act ⟨1⟩ (.call (.read ⟨16, 0⟩ .u64)),
       .act ⟨2⟩ (.call (.start 0 .regular)), .act ⟨2⟩ (.call (.write ⟨16, 0⟩ (.u64 7))),
       .act ⟨2⟩ (.call (.write ⟨16, 1⟩ (.u64 8))), .act ⟨2⟩ (.call .commit), .act ⟨1⟩ (.call .extend)]
    let t := (Chronicle.start smallRuntime pair).run actions
    let t' := t.step (.act ⟨1⟩ .resume : Action Unit Unit)
    let t'' := t'.step (.act ⟨1⟩ (.call (.read ⟨16, 1⟩ .u64)) : Action Unit Unit)
    (t.system.step (.act ⟨1⟩ .resume : Action Unit Unit)).1 = .replied (.verdict true) ∧
      (∃ w ∈ t'.system.worker? ⟨1⟩, w.context.phase = .active ∧
        ∃ e ∈ w.context.window.entries, ¬ t'.CurrentAsOf e w.context.upper) ∧
      (t'.system.step (.act ⟨1⟩ (.call (.read ⟨16, 1⟩ .u64)) : Action Unit Unit)).1 = .replied (.value (.u64 8)) ∧
      ∀ time ≤ t''.system.runtime.clock.now, ¬ ∀ q ∈ fromMemory (t''.attempts ⟨1⟩).accesses,
        q.HoldsIn (contentAt pair.words t''.commits time) := by
  decide +kernel

/-- A regular context extends its snapshot past a commit to another field.  While the extension stands at its event,
    the field that was read is overtaken, but by a commit beyond the new bound. -/
theorem extension_covers_read_log_of_two :
    let actions : List (Action Unit Unit) :=
      [.announce, .announce, .register ⟨1⟩, .register ⟨2⟩,
       .act ⟨1⟩ (.call (.start 0 .regular)), .act ⟨1⟩ (.call (.read ⟨16, 0⟩ .u64)),
       .act ⟨2⟩ (.call (.start 0 .regular)), .act ⟨2⟩ (.call (.write ⟨16, 1⟩ (.u64 8))),
       .act ⟨2⟩ (.call .commit)]
    let between : List (Action Unit Unit) :=
      [.act ⟨2⟩ (.call (.start 0 .regular)), .act ⟨2⟩ (.call (.write ⟨16, 0⟩ (.u64 7))), .act ⟨2⟩ (.call .commit)]
    let resumed := actions ++ [.act ⟨1⟩ (.call .extend)] ++ between ++ [.act ⟨1⟩ .resume]
    let t := (Chronicle.start smallRuntime pair).run resumed
    let t' := (Chronicle.start smallRuntime pair).run (resumed ++ [.act ⟨1⟩ (.call (.read ⟨16, 1⟩ .u64))])
    ∃ w, t.system.worker? ⟨1⟩ = some w ∧ w.context.upper = 1 ∧ w.context.reads.entries.length = 1 ∧
      (∀ e ∈ w.context.reads.entries, t.CurrentAsOf e 1) ∧
      t.ReadsSince t' ⟨1⟩ 1 (contentAt pair.words t'.commits 1) ∧
      (fromMemory ((t'.attempts ⟨1⟩).accesses.drop (t.attempts ⟨1⟩).accesses.length)).length = 1 := by
  intro actions between resumed t t'
  have found : ∃ w ∈ ((Chronicle.start smallRuntime pair).run actions).system.worker? ⟨1⟩,
      w.context.phase = .active ∧ w.isBusy = false ∧ w.context.reads.entries.length = 1 := by decide +kernel
  obtain ⟨w, here, active, idle, one⟩ := found
  have limits : WithinLimits (Chronicle.start smallRuntime pair).system
      (resumed ++ [.act ⟨1⟩ (.call (.read ⟨16, 1⟩ .u64))]) :=
    ⟨by decide +kernel, by decide +kernel, by decide⟩
  have bound : ((Chronicle.start smallRuntime pair).run actions).system.runtime.clock.now = 1 := by decide +kernel
  obtain ⟨-, ⟨refused, -⟩ | ⟨-, -, there, covered, later⟩⟩ := extension_covers_read_log smallRuntime_new pair actions
    between ⟨1⟩ (by decide) (by decide) (by decide +kernel) w here active idle
  · have stands : (((Chronicle.start smallRuntime pair).run actions).system.step
        (.act ⟨1⟩ (.call .extend) : Action Unit Unit)).1 ≠ .replied (.verdict false) := by decide +kernel
    exact absurd refused stands
  · obtain ⟨memory, -, since⟩ := later [.act ⟨1⟩ (.call (.read ⟨16, 1⟩ .u64))] limits
    rw [memory] at since
    rw [bound] at there covered since
    exact ⟨_, there, rfl, one, covered, since, by decide +kernel⟩

end TransactionalMemory
