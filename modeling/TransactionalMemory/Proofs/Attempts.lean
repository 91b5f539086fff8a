import TransactionalMemory.Proofs.Calls

/-! # The ends of attempts are made of moves

Beginning, aborting, rolling back and committing an attempt are made of moves as well, and in a sound
state none of them meets a fault of the runtime: the slots that an attempt holds can always be given
back, and its writes can always be stored.  A full counter is a fault of the context alone.

A segment that commits writes history; `Seat.become` is the seat after a segment that may have done so.
-/

namespace TransactionalMemory

variable {allowed : Mode → Prop} {m₀ : Memory} {d : Seat} {record : Progress → Attempt}

/-! ## Beginning and ending an attempt -/

namespace Sound

theorem start_moves (h : Sound allowed m₀ d) (free : d.pending = none) (block : Nat) {mode : Mode}
    (may : allowed mode) : ∃ s, d.scope.start block mode = (.ok (), s) ∧ s.context.phase = .active ∧
      Moves allowed d { d with
        runtime := s.runtime, context := s.context, pending := none
        attempt := { number := d.attempt.number + 1 } } := by
  obtain ⟨table, back, _⟩ := h.rollback_ok
  have begins := Move.begin block mode table free may back
  unfold Scope.start
  split
  · next nothing =>
    -- An empty log has nothing to give back.
    have empty : d.context.writes = {} := RedoLog.eq_empty nothing
    have same : { d.context with writes := {} } = d.context := by rw [← empty]
    rw [empty] at back
    cases back
    rw [same] at begins
    exact ⟨_, rfl, rfl, .single begins⟩
  · simp only [Scope.releaseWrites]
    rw [show d.scope.context.writes.rollback d.scope.runtime.table = (.ok (), {}, table) from back]
    exact ⟨_, rfl, rfl, .single begins⟩

theorem rollback_moves (h : Sound allowed m₀ d) (noExtension : ¬ Pending.isExtension d.pending) :
    ∃ s, d.scope.rollback = (.ok (), s) ∧ s.context.phase ≠ .active ∧
      (d.context.phase = .active → s.context.phase ≠ .committed) ∧
      Moves allowed d { d with runtime := s.runtime, context := s.context } := by
  simp only [Scope.rollback]
  split
  · next active =>
    obtain ⟨table, back, _⟩ := h.rollback_ok
    simp only [Scope.releaseWrites]
    rw [show d.scope.context.writes.rollback d.scope.runtime.table = (.ok (), {}, table) from back]
    exact ⟨_, rfl, Phase.noConfusion, fun _ => Phase.noConfusion,
      .single (.abandon table active noExtension back)⟩
  · next inactive =>
    exact ⟨_, rfl, inactive, fun active => absurd active inactive, .refl⟩

end Sound

namespace Sound

theorem counted (h : Sound allowed m₀ d) (published tally : Tally) (conflict : Option Conflict) :
    Moves allowed d { d with
      runtime := { d.runtime with published }
      context := { d.context with tally, lastConflict := conflict } } :=
  .single (.count d.runtime.clock.now published tally conflict d.attempt.extended d.attempt.broken
    (Nat.le_refl _) h.limit id id)

theorem remarked (h : Sound allowed m₀ d) (extended broken : Bool)
    (stillExtended : d.attempt.extended = true → extended = true)
    (stillBroken : d.attempt.broken = true → broken = true) :
    Moves allowed d { d with attempt := { d.attempt with extended, broken } } :=
  .single (.count d.runtime.clock.now d.runtime.published d.context.tally d.context.lastConflict
    extended broken (Nat.le_refl _) h.limit stillExtended stillBroken)

end Sound

namespace Seat

/-- The record of the attempt after its abort: a fault leaves the attempt standing. -/
def abortRecord (d : Seat) : Progress → Attempt
  | .faulted _ => { d.attempt with broken := true }
  | _ => d.attempt

end Seat

namespace Leads

theorem finishAbort (h : Sound allowed m₀ d) {c : Conflict} {site : AbortSite}
    (waiting : d.pending = some (.abort c site)) :
    Leads allowed d d.abortRecord (d.scope.finishAbort c site) := by
  have isAbort : Pending.isAbort d.pending := by rw [waiting]; trivial
  have noExtension : ¬ Pending.isExtension d.pending := by rw [waiting]; exact id
  simp only [Scope.finishAbort]
  cases d.scope.context.tally.countAbort c with
  | error f =>
    refine ⟨?_, Phase.not_committed, fun _ => isAbort⟩
    -- The attempt is left standing, and the record says so.
    refine (h.remarked d.attempt.extended true id fun _ => rfl).trans (.single ?_)
    exact .turn none id fun _ _ => Or.inr rfl
  | ok tally =>
    have counted := h.counted d.runtime.published tally (some c)
    -- In a sound state the slots can be given back, so only the counter can fail.
    obtain ⟨s, rolled, inactive, open_, moves⟩ := (h.moves counted).rollback_moves noExtension
    replace rolled : Scope.rollback { d.scope with
      context := { d.scope.context with tally, lastConflict := some c } } = (.ok (), s) := rolled
    have ended : Moves allowed d { d with runtime := s.runtime, context := s.context, pending := none } :=
      (counted.trans moves).tail (.turn none id fun active => absurd active inactive)
    simp only [rolled]
    cases site with
    | access => exact ⟨ended, open_, fun _ => isAbort⟩
    | commit => exact ⟨ended, open_, fun _ => isAbort⟩
    | block => exact ⟨ended, open_, fun _ => isAbort⟩

theorem publish (h : Sound allowed m₀ d) (free : d.pending = none) :
    Leads allowed d (fun _ => d.attempt) (Scope.silent d.scope.publish) := by
  have settled : ∀ published tally, Moves allowed d { d with
      runtime := { d.runtime with published }
      context := { d.context with tally }
      pending := none } := fun published tally =>
    (h.counted published tally d.context.lastConflict).tail
      (.turn none id fun _ abort => absurd abort (Pending.not_isAbort_of_free free))
  unfold Scope.publish
  dsimp only
  split
  · exact ⟨settled d.runtime.published {}, Phase.not_committed, Progress.noConfusion⟩
  · simp only [Runtime.publish]
    cases d.scope.runtime.published.add d.scope.context.tally with
    | error f => exact ⟨settled d.runtime.published {}, Phase.not_committed, Progress.noConfusion⟩
    | ok published => exact ⟨settled published {}, Phase.not_committed, Progress.noConfusion⟩

theorem giveUp (h : Sound allowed m₀ d) {reason : GiveUpReason} {report : GaveUp}
    (waiting : d.pending = some (.giveUp reason report)) :
    Leads allowed d (fun _ => d.attempt) (d.scope.resume (.giveUp reason report)) := by
  have noAbort : ¬ Pending.isAbort d.pending := by rw [waiting]; exact id
  unfold Scope.resume Scope.finishGiveUp
  dsimp only
  split
  · exact .stay noAbort id Progress.noConfusion rfl
  · next tally counted =>
    exact ⟨(h.counted d.runtime.published tally d.context.lastConflict).tail
      (.turn none id fun _ abort => absurd abort noAbort), Phase.not_committed, Progress.noConfusion⟩

end Leads

/-! ## Commits -/

namespace Seat

/-- The seat after something that may have committed the attempt, with another record of it. -/
def become (d : Seat) (runtime : Runtime) (context : Context) (pending : Option Pending)
    (attempt : Attempt) : Seat :=
  let commit : Commit := ⟨runtime.clock.now, d.context, d.attempt⟩
  let committed := d.context.phase = .active ∧ context.phase = .committed
  { runtime, context, pending, attempt
    commits := if committed ∧ ¬ d.context.writes.isEmpty then d.commits ++ [commit] else d.commits
    readOnly := if committed ∧ d.context.writes.isEmpty then d.readOnly ++ [commit] else d.readOnly }

variable {runtime : Runtime} {context : Context} {pending : Option Pending} {attempt : Attempt}

theorem become_of_uncommitted (h : d.context.phase = .active → context.phase ≠ .committed) :
    d.become runtime context pending attempt = { d with runtime, context, pending, attempt } := by
  have uncommitted : ¬ (d.context.phase = .active ∧ context.phase = .committed) :=
    fun both => h both.1 both.2
  simp [become, uncommitted]

end Seat

theorem Leads.become {p : Progress × Scope} (l : Leads allowed d record p) :
    Moves allowed d (d.become p.2.runtime p.2.context p.1.rest? (record p.1)) := by
  rw [Seat.become_of_uncommitted l.uncommitted]
  exact l.moves

theorem eq_of_counter {n m : Nat} (counted : counter n = .ok m) : m = n ∧ n < wordRange := by
  unfold counter at counted
  split at counted
  · next fits =>
    cases counted
    exact ⟨rfl, fits⟩
  · cases counted

theorem Clock.advance_eq {c : Clock} (small : c.now + 1 < lockBit) :
    c.advance = (.ok (c.now + 1), ⟨c.now + 1⟩) := by
  have fits : c.now + 1 < wordRange := by
    unfold lockBit at small
    simp only [wordRange]
    omega
  rw [advance, counter, if_pos fits, Nat.mod_eq_of_lt fits]

theorem Scope.finishCommit_eq (s : Scope) (wroteNothing : Bool) : ∃ p tally,
    s.finishCommit wroteNothing = (p, ⟨s.runtime, { s.context with phase := .committed, tally }⟩) ∧
      p.rest? = none ∧ p ≠ .commitLost := by
  unfold finishCommit
  dsimp only
  split
  · exact ⟨_, s.context.tally, rfl, rfl, Progress.noConfusion⟩
  · next tally counted => exact ⟨_, tally, rfl, rfl, Progress.noConfusion⟩

theorem Scope.phase_finishCommit (s : Scope) (wroteNothing : Bool) :
    (s.finishCommit wroteNothing).2.context.phase = .committed := by
  obtain ⟨p, tally, finished, -⟩ := s.finishCommit_eq wroteNothing
  rw [finished]

namespace Sound

theorem ticked (free : d.pending = none)
    (active : d.context.phase = .active) (small : d.runtime.clock.now + 1 < lockBit)
    {rest : Option Pending} (noExtension : ¬ Pending.isExtension rest) :
    Moves allowed d (d.become { d.runtime with clock := ⟨d.runtime.clock.now + 1⟩ } d.context rest
      d.attempt) := by
  rw [Seat.become_of_uncommitted fun _ => Phase.not_committed active]
  refine (Relation.ReflTransGen.single (.count (d.runtime.clock.now + 1) d.runtime.published
    d.context.tally d.context.lastConflict d.attempt.extended d.attempt.broken (Nat.le_succ _) small id
    id)).tail (.turn rest noExtension ?_)
  intro _ abort
  exact absurd abort (Pending.not_isAbort_of_free free)

theorem stores (h : Sound allowed m₀ d) (free : d.pending = none) (active : d.context.phase = .active)
    (wrote : d.context.writes.isEmpty = false) (small : d.runtime.clock.now + 1 < lockBit)
    (checked : d.runtime.clock.now = d.context.lower ∨ d.ReadsCurrent) {p : Progress × Scope}
    (stores : Scope.storeWrites ⟨{ d.runtime with clock := ⟨d.runtime.clock.now + 1⟩ }, d.context⟩
      (d.runtime.clock.now + 1) = p) :
    p.1 ≠ .commitLost ∧
      Moves allowed d (d.become p.2.runtime p.2.context p.1.rest? d.attempt) := by
  obtain ⟨table, memory, stored, _⟩ := h.commit_ok small
  have move : Moves allowed d _ := .single
    (.commitWrites (d.runtime.clock.now + 1) table memory free active wrote rfl small checked stored)
  obtain ⟨p', tally, finished, rest, notLost⟩ := Scope.finishCommit_eq
    ⟨{ d.runtime with clock := ⟨d.runtime.clock.now + 1⟩, table, memory },
      { d.context with writes := {} }⟩ false
  have counted := (h.moves move).counted d.runtime.published tally d.context.lastConflict
  -- The context is counted after it was committed, so the seat is that of the two moves together.
  simp only [Scope.storeWrites, stored, finished] at stores
  subst stores
  refine ⟨notLost, ?_⟩
  rw [rest]
  have both := move.trans counted
  simpa [Seat.become, active, wrote, Seat.commit] using both

theorem commit_moves (h : Sound allowed m₀ d) (free : d.pending = none)
    (small : d.runtime.clock.now + 1 < lockBit) (site : AbortSite) {p : Progress × Scope}
    (commits : d.scope.commit site = p) :
    p.1 ≠ .commitLost ∧
      Moves allowed d (d.become p.2.runtime p.2.context p.1.rest? d.attempt) := by
  have noAbort := Pending.not_isAbort_of_free free
  have ended : ∀ {q : Progress}, d.scope.commit site = (q, d.scope) → q ≠ .commitLost →
      ¬ Pending.isExtension q.rest? → p.1 ≠ .commitLost ∧
        Moves allowed d (d.become p.2.runtime p.2.context p.1.rest? d.attempt) := by
    intro q same notLost noExtension
    rw [same] at commits
    subst commits
    have stayed : Leads allowed d (fun _ => d.attempt) (q, d.scope) :=
      .stay noAbort noExtension notLost rfl
    exact ⟨notLost, stayed.become⟩
  cases phase : d.context.phase with
  | uninitialized =>
    exact ended (by rw [Scope.commit, show d.scope.context.phase = .uninitialized from phase])
      Progress.noConfusion id
  | committed =>
    exact ended (by rw [Scope.commit, show d.scope.context.phase = .committed from phase])
      Progress.noConfusion id
  | aborted =>
    exact ended (by rw [Scope.commit, show d.scope.context.phase = .aborted from phase])
      Progress.noConfusion id
  | active =>
    rw [Scope.commit, show d.scope.context.phase = .active from phase] at commits
    dsimp only at commits
    cases wrote : d.context.writes.isEmpty with
    | true =>
      rw [if_pos (show d.scope.context.writes.isEmpty = true from wrote)] at commits
      obtain ⟨p', tally, finished, rest, notLost⟩ := Scope.finishCommit_eq d.scope true
      rw [finished] at commits
      subst commits
      have move : Moves allowed d _ := .single (.commitReads free phase wrote)
      have both := move.trans ((h.moves move).counted d.runtime.published tally d.context.lastConflict)
      refine ⟨notLost, ?_⟩
      rw [rest]
      simpa [Seat.become, phase, wrote, Seat.commit, Seat.scope, Seat.withContext] using both
    | false =>
      rw [if_neg (by rw [show d.scope.context.writes.isEmpty = false from wrote]; exact Bool.false_ne_true),
        show d.scope.runtime.clock.advance = _ from Clock.advance_eq small] at commits
      dsimp only [Scope.commitAt] at commits
      split at commits
      · subst commits
        exact ⟨Progress.noConfusion, ticked free phase small id⟩
      · next next counted =>
        have next_eq : next = d.context.lower + 1 := (eq_of_counter counted).1
        split at commits
        · next same =>
          have same : d.runtime.clock.now + 1 = next := same
          -- The stamp is the one right after the lower bound: the clock has not moved since the attempt began.
          exact h.stores free phase wrote small (Or.inl (by omega)) commits
        · split at commits
          · subst commits
            exact ⟨Progress.noConfusion, ticked free phase small id⟩
          · next current => exact h.stores free phase wrote small (Or.inr current) commits
          · subst commits
            exact ⟨Progress.noConfusion, ticked free phase small id⟩

end Sound

end TransactionalMemory
