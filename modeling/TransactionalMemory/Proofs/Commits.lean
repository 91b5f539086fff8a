import TransactionalMemory.Proofs.ElasticMode

/-! # Commits

When an attempt with writes commits, its backed reads are what memory holds at that moment.  If the
logged reads are checked, the check says so.  If the check is skipped, the clock has not moved since
the attempt began, so no other commit came between its reads and now (`Sound.committing`).  This is
the point of the commit order at which the attempt takes effect.

With this the last part of the invariant is kept too, and so every move keeps all of it
(`Sound.move`).
-/

namespace TransactionalMemory

variable {allowed : Mode → Prop} {m₀ : Memory} {d d' : Seat}

theorem snoc_eq_append_cons {α : Type} {l before after : List α} {a x : α}
    (h : l ++ [a] = before ++ x :: after) :
    (before = l ∧ x = a) ∨ ∃ after', l = before ++ x :: after' := by
  cases after using List.reverseRecOn with
  | nil =>
    obtain ⟨same, last⟩ := List.append_inj' h rfl
    exact Or.inl ⟨same.symm, by simpa using last.symm⟩
  | append_singleton after' b =>
    rw [← List.cons_append, ← List.append_assoc] at h
    exact Or.inr ⟨after', (List.append_inj' h rfl).1⟩

namespace Sound

/-- Just before a commit, memory holds what the backed reads read. -/
theorem committing (h : Sound allowed m₀ d) (active : d.context.phase = .active)
    (checked : d.runtime.clock.now = d.context.lower ∨ d.ReadsCurrent) {q : Reading}
    (member : q ∈ d.taken) (backed : d.Backed m₀ q) : q.HoldsIn d.runtime.memory.words := by
  cases checked with
  -- The check is skipped: no commit came since the attempt began, so the read is of this moment.
  | inl unmoved =>
    obtain ⟨after, past, holds⟩ := h.dated.time active q member
    have now : q.time = d.runtime.clock.now := by omega
    rw [now] at holds
    exact h.holds_at_clock.mp holds
  | inr current => exact h.holds_now current backed

theorem not_doomed (h : Sound allowed m₀ d)
    (checked : d.runtime.clock.now = d.context.lower ∨ d.ReadsCurrent) : ¬ d.Doomed := by
  rintro ⟨e, member, stamp, own, overtaken, later⟩
  cases checked with
  | inl unmoved =>
    have := h.stamp_le_clock own
    omega
  | inr current =>
    have same := h.version_of_current (current_of_allCurrent current e member)
    rw [h.owning.remembered _ _ own] at same
    omega

theorem faithful (h : Sound allowed m₀ d) (active : d.context.phase = .active)
    (regular : d.context.mode ≠ .elastic)
    (checked : d.runtime.clock.now = d.context.lower ∨ d.ReadsCurrent) :
    Faithful d.attempt.accesses d.context.writes :=
  (h.snapshot active regular).told.resolve_right (h.not_doomed checked)

theorem faithful_of_isEmpty (h : Sound allowed m₀ d) (active : d.context.phase = .active)
    (regular : d.context.mode ≠ .elastic) (nothing : d.context.writes.isEmpty = true) :
    Faithful d.attempt.accesses d.context.writes := by
  refine (h.snapshot active regular).told.resolve_right ?_
  rintro ⟨e, _, stamp, own, _⟩
  rw [RedoLog.stamp?_of_isEmpty nothing] at own
  cases own

end Sound

namespace Annals

variable {now stamp : Nat} {commits readOnly : List Commit}

theorem mono (a : Annals allowed m₀ now commits readOnly) {later : Nat} (le : now ≤ later) :
    Annals allowed m₀ later commits readOnly where
  may := a.may
  executed := a.executed
  replayed := a.replayed
  readers x member regular := by
    obtain ⟨bounds, upper, past, told, replays⟩ := a.readers x member regular
    exact ⟨bounds, upper, Nat.le_trans past le, told, replays⟩
  guards := a.guards

theorem read_only (a : Annals allowed m₀ now commits readOnly) {x : Commit}
    (may : allowed x.context.mode)
    (reader : x.context.mode ≠ .elastic →
      x.context.lower ≤ x.context.upper ∧ x.context.upper ≤ x.stamp ∧ x.stamp ≤ now ∧
        Faithful x.attempt.accesses {} ∧
        Replays (contentAt m₀.words commits x.context.upper) x.attempt.accesses) :
    Annals allowed m₀ now commits (readOnly ++ [x]) where
  may y member := by
    rw [← List.append_assoc] at member
    cases List.mem_append.mp member with
    | inl member => exact a.may y member
    | inr single =>
      rw [List.mem_singleton.mp single]
      exact may
  executed := a.executed
  replayed := a.replayed
  readers y member regular := by
    cases List.mem_append.mp member with
    | inl member => exact a.readers y member regular
    | inr single =>
      rw [List.mem_singleton.mp single] at regular ⊢
      exact reader regular
  guards := a.guards

theorem snoc (a : Annals allowed m₀ now commits readOnly) {x : Commit} (later : now < x.stamp)
    (may : allowed x.context.mode)
    (executed : (x.context.mode = .elastic → x.attempt.broken = false) →
      ∀ m, execute x.attempt.accesses m = overlay x.context.writes.entries m)
    (replayed : x.context.mode ≠ .elastic → Replays (committed m₀.words commits) x.attempt.accesses)
    (guards : x.context.mode = .elastic → x.attempt.broken = false →
      ∀ q ∈ guarded x.context.window.capacity x.attempt.accesses,
        q.HoldsIn (committed m₀.words commits)) :
    Annals allowed m₀ x.stamp (commits ++ [x]) readOnly where
  may y member := by
    cases List.mem_append.mp member with
    | inl member =>
      cases List.mem_append.mp member with
      | inl member => exact a.may y (List.mem_append_left _ member)
      | inr single =>
        rw [List.mem_singleton.mp single]
        exact may
    | inr member => exact a.may y (List.mem_append_right _ member)
  executed y member := by
    cases List.mem_append.mp member with
    | inl member => exact a.executed y member
    | inr single =>
      rw [List.mem_singleton.mp single]
      exact executed
  replayed before y after split regular := by
    rcases snoc_eq_append_cons split with ⟨rfl, rfl⟩ | ⟨after', split'⟩
    · exact replayed regular
    · exact a.replayed before y after' split' regular
  readers y member regular := by
    obtain ⟨bounds, upper, past, told, replays⟩ := a.readers y member regular
    refine ⟨bounds, upper, by omega, told, ?_⟩
    rw [contentAt_append (fun z single => ?_)]
    · exact replays
    · rw [List.mem_singleton.mp single]
      omega
  guards before y after split elastic unbroken := by
    rcases snoc_eq_append_cons split with ⟨rfl, rfl⟩ | ⟨after', split'⟩
    · exact guards elastic unbroken
    · exact a.guards before y after' split' elastic unbroken

end Annals

namespace Sound

theorem annals_move (h : Sound allowed m₀ d) (move : Move allowed d d') :
    Annals allowed m₀ d'.runtime.clock.now d'.commits d'.readOnly := by
  cases move with
  | count now published tally conflict extended broken later => exact h.annals.mono later
  | commitReads free active nothing =>
    refine h.annals.read_only (h.may active) ?_
    intro regular
    have told := h.faithful_of_isEmpty active regular nothing
    refine ⟨h.dated.lower_le, h.dated.upper_le, Nat.le_refl _, ?_,
      told.replays _ (h.snapshot active regular).consistent⟩
    rw [← RedoLog.eq_empty nothing]
    exact told
  | commitWrites stamp table memory free active wrote next small checked stored =>
    -- With no call at an event and no abort cut off, an elastic attempt is covered.
    have covered : d.context.mode = .elastic → d.attempt.broken = false → d.Covered m₀ :=
      fun elastic unbroken => ((h.guarding active elastic wrote).of_free free).resolve_right fun broken => by
        cases unbroken.symm.trans broken
    have later : d.runtime.clock.now < stamp := by omega
    refine h.annals.snoc (x := d.commit stamp) later (h.may active) ?_ ?_ ?_
    · intro whole
      by_cases elastic : d.context.mode = .elastic
      · exact (covered elastic (whole elastic)).told.effect
      · exact (h.faithful active elastic checked).effect
    · intro regular
      refine (h.faithful active regular checked).replays _ ?_
      intro q member
      -- Memory is the committed memory up to here, and it holds what the attempt has read.
      rw [← h.ledger.words]
      exact h.committing active checked member ((h.snapshot active regular).backed q member)
    · intro elastic unbroken q member
      rw [← h.ledger.words]
      exact h.committing active checked (mem_fromMemory_of_guarded member)
        ((covered elastic unbroken).backed q member)
  | _ => exact h.annals

theorem move (h : Sound allowed m₀ d) (move : Move allowed d d') : Sound allowed m₀ d' where
  ledger := h.ledger_move move
  limit := move.limit h.limit
  annals := h.annals_move move
  owning := h.owning_move move
  dated := h.dated_move move
  room := by rw [move.capacity]; exact h.room
  waits _ _ standing := h.waits_move move standing
  may := move.may h.may
  snapshot := h.snapshot_move move
  watching := h.watching_move move
  guarding := h.guarding_move move

theorem moves (h : Sound allowed m₀ d) (moves : Moves allowed d d') : Sound allowed m₀ d' := by
  induction moves with
  | refl => exact h
  | tail _ last ih => exact ih.move last

end Sound

namespace Moves

theorem unchanged {β : Type} {f : Seat → β} (one : ∀ {d d' : Seat}, Move allowed d d' → f d' = f d)
    (moves : Moves allowed d d') : f d' = f d := by
  induction moves with
  | refl => rfl
  | tail _ last ih => exact (one last).trans ih

theorem owner (moves : Moves allowed d d') : d'.context.owner = d.context.owner :=
  unchanged (f := fun d => d.context.owner) Move.owner moves

theorem settings (moves : Moves allowed d d') : d'.runtime.settings = d.runtime.settings :=
  unchanged (f := fun d => d.runtime.settings) Move.settings moves

theorem nextOwner (moves : Moves allowed d d') : d'.runtime.nextOwner = d.runtime.nextOwner :=
  unchanged (f := fun d => d.runtime.nextOwner) Move.nextOwner moves

theorem capacity (moves : Moves allowed d d') :
    d'.context.window.capacity = d.context.window.capacity :=
  unchanged (f := fun d => d.context.window.capacity) Move.capacity moves

end Moves

/-- What a context can rely on while another one makes any number of moves. -/
theorem Sound.rely_moves (h : Sound allowed m₀ d) (moves : Moves allowed d d') {owner : OwnerId}
    (other : owner ≠ d.context.owner) : Rely owner d d' := by
  induction moves with
  | refl => exact .refl owner d
  | tail before last ih =>
    exact ih.trans ((h.moves before).rely_move last (by rw [Moves.owner before]; exact other))

end TransactionalMemory
