import TransactionalMemory.Proofs.Grounds

/-! # Why the assertions hold

The calls assert what they rely on: that a slot which names the context is one of its log, that the bound of a
snapshot has reached the stamp that it had to reach, that an index is one of the table, that a slot to be released
is held and its stamp small, that the clock and the counters have room.  What all these assertions rest on is
collected in `Scope.Reliable`.  A segment of a call that is not misused meets no fault then (`Scope.Smooth`), and
the lemmas follow the functions of the calls.

The slot of a location stays a variable wherever a lookup in the table is taken apart.
-/

namespace TransactionalMemory

/-! ## Proper requests -/

/-- The attempt of the context is active, or the engine has aborted it. -/
def Context.Usable (c : Context) : Prop := c.phase = .active ∨ c.phase = .aborted ∧ c.lastConflict ≠ none

/-- An access needs a context that can be used, and a commit one that has begun an attempt before. -/
structure Context.Accepts (c : Context) (request : Request) : Prop where
  access : request.isAccess = true → c.Usable
  commit : request = .commit → c.phase ≠ .uninitialized

instance (c : Context) : Decidable c.Usable := inferInstanceAs (Decidable (_ ∨ _))

instance (c : Context) (request : Request) : Decidable (c.Accepts request) :=
  decidable_of_iff ((request.isAccess = true → c.Usable) ∧ (request = .commit → c.phase ≠ .uninitialized))
    ⟨fun both => ⟨both.1, both.2⟩, fun accepts => ⟨accepts.access, accepts.commit⟩⟩

theorem Memory.peek_of_has {m : Memory} {l : Location} (has : m.Has l) (kind : Kind) :
    m.peek l kind = .ok (Value.decode (m.words l) kind) :=
  peek_eq_ok_iff.mpr ⟨has, rfl⟩

theorem counter_of_lt {n : Nat} (small : n < lockBit) : counter n = .ok n := by
  unfold lockBit at small
  refine if_pos ?_
  simp only [wordRange]
  omega

namespace Scope

variable {s s' : Scope} {l : Location} {kind : Kind} {v : Value} {slot stamp : Nat}

/-! ## What the assertions rest on -/

/-- The context holds the slots that its log names and no others.  So a slot that names it is in the log when it is
    read or written, and every slot that it releases is held. -/
structure Reliable (s : Scope) : Prop extends s.Holding where
  /-- A bound that moves to the clock reaches every stamp. -/
  stamped : ∀ slot stamp, s.runtime.table.word slot = .free stamp → stamp ≤ s.runtime.clock.now
  /-- A check of reads stays within the table. -/
  inside : ∀ e, s.context.Remembers e → e.slot < s.runtime.table.size
  /-- A commit can store its writes. -/
  exist : ∀ e ∈ s.context.writes.entries, s.runtime.memory.Has e.location
  /-- The stamp after the lower bound is no greater than the next one. -/
  lower : s.context.lower ≤ s.runtime.clock.now
  /-- The next stamp does not reach the bit that marks a held slot. -/
  limit : s.runtime.clock.now < lockBit - 1

namespace Reliable

variable (h : s.Reliable)

include h

/-- The assertions do not rest on the bound of the snapshot. -/
theorem withUpper (upper : Nat) : Reliable ⟨s.runtime, { s.context with upper }⟩ where
  toHolding := h.keep rfl rfl rfl rfl
  stamped := h.stamped
  inside := h.inside
  exist := h.exist
  lower := h.lower
  limit := h.limit

theorem validates_reads : ∃ b, s.context.reads.validate s.runtime.table s.context.owner s.context.writes = .ok b :=
  allCurrent_ok _ _ fun e member => h.inside e (Or.inl member)

theorem validates_window :
    ∃ b, s.context.window.validate s.runtime.table s.context.owner s.context.writes = .ok b :=
  allCurrent_ok _ _ fun e member => h.inside e (Or.inr member)

/-- A slot that is not in the log is not held by the context. -/
theorem not_own (unheld : s.context.writes.stamp? slot = none) :
    s.runtime.table.word slot ≠ .held s.context.owner := fun held => by
  obtain ⟨stamp, own⟩ := h.stamp?_of_held held
  cases unheld.symm.trans own

theorem next_lt : s.runtime.clock.now + 1 < lockBit := by
  have limit := h.limit
  omega

theorem stores : ∃ table memory, s.context.writes.commit (s.runtime.clock.now + 1) s.runtime.table
    s.runtime.memory = (.ok (), {}, table, memory) := by
  obtain ⟨table, memory, stored, -⟩ := h.wellFormed.commit h.held h.next_lt h.exist
  exact ⟨table, memory, stored⟩

end Reliable

/-- What is known of a call that stands still before the bound moves to the candidate. -/
def Expects (s : Scope) (candidate : Nat) : AfterExtension → Prop
  | .answer => True
  | .loadHeld l _ => s.runtime.memory.Has l
  | .recheck l _ slot stamp _ => s.runtime.memory.Has l ∧ slot = s.runtime.table.slotOf l ∧
      s.context.writes.stamp? slot = none ∧ stamp ≤ candidate

/-- The clock has advanced on behalf of a commit. -/
abbrev ticked (s : Scope) : Scope :=
  { s with runtime := { s.runtime with clock := ⟨s.runtime.clock.now + 1⟩ } }

/-! ## Segments without faults -/

/-- A segment that meets no fault.  If it stands still before the bound moves, the field that it reads then
    exists. -/
structure Smooth (s : Scope) (p : Progress × Scope) : Prop where
  runs : ∀ f, p.1 ≠ .faulted f
  waits : ∀ event candidate next, p.1 = .standing event (.extend candidate next) →
    ∀ l ∈ next.location?, s.runtime.memory.Has l

namespace Smooth

theorem answer (a : Reply) : Smooth s (.answered a, s') :=
  ⟨fun _ => Progress.noConfusion, fun _ _ _ => Progress.noConfusion⟩

theorem lost : Smooth s (.commitLost, s') :=
  ⟨fun _ => Progress.noConfusion, fun _ _ _ => Progress.noConfusion⟩

theorem abort (c : Conflict) (site : AbortSite) : Smooth s (s'.abort c site) where
  runs _ := Progress.noConfusion
  waits _ _ _ stands := by cases stands

/-! ### Reading -/

theorem finishRead (recent : stamp ≤ s'.context.upper) : Smooth s (s'.finishRead l slot stamp v) := by
  rw [Scope.finishRead, if_pos recent]
  exact answer _

/-- The bound slides to the clock, which has reached every stamp. -/
theorem slide (h : s.Reliable) (free : s.runtime.table.word slot = .free stamp) :
    Smooth s (s.slide l slot stamp v) := by
  obtain ⟨current, validated⟩ := h.validates_window
  simp only [Scope.slide, validated]
  cases current with
  | false => exact abort _ _
  | true => exact finishRead (h.stamped slot stamp free)

theorem tryExtend (h : s.Reliable) {next : AfterExtension} {failed : Scope → Progress × Scope}
    (has : ∀ l ∈ next.location?, s.runtime.memory.Has l) (otherwise : Smooth s (failed s)) :
    Smooth s (s.tryExtend next failed) := by
  obtain ⟨current, validated⟩ := h.validates_reads
  simp only [Scope.tryExtend, validated]
  cases current with
  | false => exact otherwise
  | true =>
    refine ⟨fun _ => Progress.noConfusion, ?_⟩
    rintro event candidate next ⟨⟩
    exact has

theorem loadHeld (has : s'.runtime.memory.Has l) : Smooth s (s'.loadHeld l kind) := by
  rw [Scope.loadHeld, Memory.peek_of_has has]
  exact answer _

theorem loadFree (h : s.Reliable) (has : s.runtime.memory.Has l) (here : slot = s.runtime.table.slotOf l)
    (unheld : s.context.writes.stamp? slot = none) : Smooth s (s.loadFree l kind slot) := by
  have inside : slot < s.runtime.table.size := here ▸ LockTable.slotOf_lt_size _ l
  rw [Scope.loadFree_eq, LockTable.check_of_lt inside]
  cases word : s.runtime.table.word slot with
  | held holder =>
    -- The slot is not the context's own, because its log does not name it.
    have other : holder ≠ s.context.owner := fun own => h.not_own unheld (own ▸ word)
    simp only [if_neg other]
    exact abort _ _
  | free stamp =>
    simp only [Memory.peek_of_has has]
    split
    · next recent => exact finishRead recent
    · split
      · exact slide h word
      · refine tryExtend h ?_ (abort _ _)
        rintro _ ⟨⟩
        exact has

/-- A context that can be used is active, or it repeats the conflict of its last attempt. -/
theorem obstacle (usable : s.context.Usable) {a : Progress} (ended : s.obstacle? = some a) : Smooth s (a, s) := by
  rcases usable with active | ⟨aborted, met⟩
  · simp only [obstacle?, active] at ended
    cases ended
  · obtain ⟨c, conflict⟩ := Option.ne_none_iff_exists'.mp met
    simp only [obstacle?, aborted, conflict] at ended
    cases ended
    exact answer _

section

variable (h : s.Reliable) (usable : s.context.Usable)

include h usable

theorem load (has : s.runtime.memory.Has l) : Smooth s (s.load l kind) := by
  unfold Scope.load
  split
  · next ended => exact obstacle usable ended
  · dsimp only
    split
    · next unheld => exact loadFree h has rfl unheld
    · split
      · exact answer _
      · split
        · exact loadHeld has
        · refine tryExtend h ?_ (abort _ _)
          rintro _ ⟨⟩
          exact has

omit h in
theorem probe : Smooth s (s.probe l) := by
  cases ended : s.obstacle? with
  | some a =>
    rw [Scope.probe, ended]
    exact obstacle usable ended
  | none =>
    rw [probe_of_active (Leads.obstacle?_eq_none ended)]
    split
    · exact answer _
    · exact abort _ _

theorem read (has : s.runtime.memory.Has l) : Smooth s (s.read l kind) := by
  unfold Scope.read
  split
  · next s₁ done =>
    have same := Leads.probe_snd s l
    rw [done] at same
    rw [show s₁ = s from same]
    exact load h usable has
  · exact probe usable

end

/-! ### Writing -/

theorem writeTaken {t : Scope} (h : s.Reliable) (slot stamp : Nat)
    (bits : t.runtime.table.bits = s.runtime.table.bits) (context : t.context = s.context) :
    Smooth s (t.writeTaken l slot stamp v) := by
  obtain ⟨writes, logged⟩ := RedoLog.append_some t.context.writes slot l v stamp
  -- The table has the same slots as before, so the window can be checked against it.
  have inside : ∀ e ∈ t.context.window.entries, e.slot < t.runtime.table.size := fun e member => by
    rw [LockTable.size_congr bits]
    exact h.inside e (Or.inr (context ▸ member))
  obtain ⟨current, validated⟩ := allCurrent_ok t.context.owner writes inside
  simp only [Scope.writeTaken, logged, Window.validate, validated]
  split
  · exact abort _ _
  · split
    · cases current with
      | false => exact abort _ _
      | true => exact answer _
    · exact answer _

theorem write (h : s.Reliable) (usable : s.context.Usable) : Smooth s (s.write l v) := by
  obtain ⟨slot, here⟩ : ∃ slot, s.runtime.table.slotOf l = slot := ⟨_, rfl⟩
  have inside : slot < s.runtime.table.size := here ▸ LockTable.slotOf_lt_size _ l
  unfold Scope.write
  rw [here]
  split
  · next ended => exact obstacle usable ended
  · dsimp only
    rw [LockTable.acquire_of_lt inside]
    cases word : s.runtime.table.word slot with
    | free stamp => exact writeTaken h slot stamp rfl rfl
    | held holder =>
      by_cases own : holder = s.context.owner
      · -- A slot that names the context is in its log, so the write needs no stamp.
        obtain ⟨writes, logged⟩ := s.context.writes.append_of_owns (h.listed slot (own ▸ word)) l v
        simp only [if_pos own, logged]
        exact answer _
      · simp only [if_neg own]
        exact abort _ _

/-! ### Moving the bound -/

theorem extend (h : s.Reliable) : Smooth s s.extend := by
  refine tryExtend h ?_ (answer _)
  rintro _ ⟨⟩

theorem extended (h : s.Reliable) {candidate : Nat} {next : AfterExtension} (expects : Expects s candidate next) :
    Smooth s (s.resume (.extend candidate next)) := by
  cases next with
  | answer => exact answer _
  | loadHeld l kind => exact loadHeld expects
  | recheck l kind slot stamp v =>
    obtain ⟨has, here, unheld, reached⟩ := expects
    have inside : slot < s.runtime.table.size := here ▸ LockTable.slotOf_lt_size _ l
    simp only [Scope.resume, afterExtension_recheck, LockTable.load_of_lt inside]
    split
    · exact finishRead reached
    · have again : Smooth _ (Scope.loadFree ⟨s.runtime, { s.context with upper := candidate }⟩ l kind slot) :=
        loadFree (h.withUpper candidate) has here unheld
      exact ⟨again.runs, again.waits⟩

/-! ### Ending attempts -/

theorem finishCommit {t : Scope} {wroteNothing : Bool}
    (counts : ∃ tally, t.context.tally.countCommit t.context.mode wroteNothing = .ok tally) :
    Smooth s (t.finishCommit wroteNothing) := by
  obtain ⟨tally, counted⟩ := counts
  simp only [Scope.finishCommit, counted]
  exact answer _

/-- A commit that is valid stores its writes, releases the slots that they are under, and is counted. -/
theorem storeWrites (h : s.Reliable)
    (counts : (s.ticked.storeWrites (s.runtime.clock.now + 1)).2.context.phase = .committed →
      ∃ tally, s.context.tally.countCommit s.context.mode false = .ok tally) :
    Smooth s (s.ticked.storeWrites (s.runtime.clock.now + 1)) := by
  obtain ⟨table, memory, stored⟩ := h.stores
  simp only [Scope.storeWrites, stored] at counts ⊢
  exact finishCommit (counts (phase_finishCommit _ _))

theorem commitAt (h : s.Reliable) {site : AbortSite}
    (counts : (s.ticked.commitAt (s.runtime.clock.now + 1) site).2.context.phase = .committed →
      ∃ tally, s.context.tally.countCommit s.context.mode false = .ok tally) :
    Smooth s (s.ticked.commitAt (s.runtime.clock.now + 1) site) := by
  have small : s.context.lower + 1 < lockBit := (Nat.succ_le_succ h.lower).trans_lt h.next_lt
  obtain ⟨current, validated⟩ := h.validates_reads
  simp only [Scope.commitAt, counter_of_lt small, validated] at counts ⊢
  split at counts
  · next same =>
    simp only [if_pos same]
    exact storeWrites h counts
  · next later =>
    simp only [if_neg later]
    cases current with
    | true => exact storeWrites h counts
    | false =>
      refine ⟨fun _ => Progress.noConfusion, ?_⟩
      rintro event candidate next ⟨⟩

theorem commit (h : s.Reliable) {site : AbortSite} (begun : s.context.phase ≠ .uninitialized)
    (counts : s.context.phase = .active → (s.commit site).2.context.phase = .committed →
      ∃ tally, s.context.tally.countCommit s.context.mode s.context.writes.isEmpty = .ok tally) :
    Smooth s (s.commit site) := by
  cases phase : s.context.phase with
  | uninitialized => exact absurd phase begun
  | committed =>
    simp only [Scope.commit, phase]
    exact answer _
  | aborted =>
    simp only [Scope.commit, phase]
    exact answer _
  | active =>
    -- The attempt is marked as committed before it is counted, so what has to be counted is known to fit.
    replace counts := counts phase
    simp only [Scope.commit, phase] at counts ⊢
    cases nothing : s.context.writes.isEmpty with
    | true =>
      simp only [nothing, ↓reduceIte] at counts ⊢
      exact finishCommit (counts (phase_finishCommit _ _))
    | false =>
      simp only [nothing, Bool.false_eq_true, ↓reduceIte, Clock.advance_eq h.next_lt] at counts ⊢
      exact commitAt h counts

/-- An abort that is counted gives back the slots that the context holds. -/
theorem finishAbort (h : s.Holding) {c : Conflict} (counts : ∃ tally, s.context.tally.countAbort c = .ok tally)
    (site : AbortSite) : Smooth s (s.finishAbort c site) := by
  obtain ⟨tally, counted⟩ := counts
  obtain ⟨s', rolled, -⟩ := h.rollback_counted tally (some c)
  simp only [Scope.finishAbort, counted, rolled]
  cases site with
  | block => exact lost
  | _ => exact answer _

theorem silent {p : Except Fault Unit × Scope} (done : ∃ s', p = (.ok (), s')) : Smooth s (silent p) := by
  obtain ⟨s', rfl⟩ := done
  exact answer _

end Smooth

/-- Counters that fit are handed over. -/
theorem publish_ok (counts : s.context.tally ≠ {} →
    ∃ published, s.runtime.published.add s.context.tally = .ok published) : ∃ s', s.publish = (.ok (), s') := by
  unfold publish
  dsimp only
  split
  · exact ⟨_, rfl⟩
  · next some =>
    obtain ⟨published, added⟩ := counts some
    rw [Runtime.publish, added]
    exact ⟨_, rfl⟩

theorem finishGiveUp_ok {reason : GiveUpReason}
    (exhausted : reason = .exhausted → ∃ tally, s.context.tally.countExhausted = .ok tally)
    (abandoned : reason = .abandoned → ∃ tally, s.context.tally.countAbandoned = .ok tally) :
    ∃ s', s.finishGiveUp reason = (.ok (), s') := by
  unfold finishGiveUp
  cases reason with
  | exhausted =>
    obtain ⟨tally, counted⟩ := exhausted rfl
    simp only [counted]
    exact ⟨_, rfl⟩
  | abandoned =>
    obtain ⟨tally, counted⟩ := abandoned rfl
    simp only [counted]
    exact ⟨_, rfl⟩

end Scope

end TransactionalMemory
