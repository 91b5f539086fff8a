import TransactionalMemory.Proofs.Slots
import TransactionalMemory.Proofs.Windows

/-! # Moves and the reads of an attempt

For each mode, a move keeps what the mode promises about the values read so far.  A regular attempt
keeps every read backed, and moves its bound only to a time at which all of them were current.  An
elastic attempt that has not written keeps the window backed: a read that is pushed out is not
promised anything any more.  Its first write moves the window to the read log, and from then on it
is in the position of a regular attempt with fewer reads to answer for.
-/

namespace TransactionalMemory

variable {allowed : Mode → Prop} {m₀ : Memory} {d d' : Seat}

/-! ## Reads from memory -/

namespace Seat

variable {l : Location} {kind : Kind} {v : Value}

theorem source_of_logged (logged : d.context.writes.value? (d.slotOf l) l = some v) :
    d.source l = .buffered := by simp [source, logged]

theorem source_of_unlogged (unlogged : d.context.writes.value? (d.slotOf l) l = none) :
    d.source l ≠ .buffered := by
  simp only [source, unlogged, Option.isSome_none, Bool.false_eq_true, ↓reduceIte]
  split <;> exact Source.noConfusion

theorem taken_write (d : Seat) (l : Location) (v : Value) : (d.did (.write l v)).taken = d.taken := by
  rw [taken, did, Attempt.add, fromMemory_append, fromMemory_write, List.append_nil]

theorem taken_own {q : Reading} (d : Seat) (h : q.source = .buffered) :
    (d.did (.read q)).taken = d.taken := by
  rw [taken, did, Attempt.add, fromMemory_append, fromMemory_of_buffered h, List.append_nil]

theorem taken_read {q : Reading} (d : Seat) (h : q.source ≠ .buffered) :
    (d.did (.read q)).taken = d.taken ++ [q] := by
  rw [taken, did, Attempt.add, fromMemory_append, fromMemory_of_not_buffered h]

end Seat

/-! ## Bounds and times -/

theorem Sound.time_read (h : Sound allowed m₀ d) {l : Location} {kind : Kind} {v : Value}
    (loaded : d.runtime.memory.peek l kind = .ok v) :
    d.context.lower ≤ (d.reading l kind v).time ∧ (d.reading l kind v).time ≤ d.runtime.clock.now ∧
      (d.reading l kind v).HoldsIn (d.content m₀ (d.reading l kind v).time) :=
  ⟨Nat.le_trans h.dated.lower_le h.dated.upper_le, Nat.le_refl _,
    h.holds_at_clock.mpr (Memory.peek_eq_ok_iff.mp loaded).2⟩

theorem Sound.dated_move (h : Sound allowed m₀ d) (move : Move allowed d d') : d'.Dated m₀ := by
  have dated := h.dated
  -- The reads after one more read from memory.
  have timed : ∀ {c : Context} {l : Location} {kind : Kind} {v : Value},
      d.context.writes.value? (d.slotOf l) l = none → d.runtime.memory.peek l kind = .ok v →
      d.context.phase = .active →
      ∀ q ∈ ((d.withContext c).did (.read (d.reading l kind v))).taken,
        d.context.lower ≤ q.time ∧ q.time ≤ d.runtime.clock.now ∧ q.HoldsIn (d.content m₀ q.time) := by
    intro c l kind v unlogged loaded active q member
    rw [Seat.taken_read _ (Seat.source_of_unlogged unlogged)] at member
    cases List.mem_append.mp member with
    | inl member => exact dated.time active q member
    | inr single =>
      rw [List.mem_singleton.mp single]
      exact h.time_read loaded
  cases move with
  | count now published tally conflict extended broken later small =>
    exact ⟨dated.lower_le, Nat.le_trans dated.upper_le later, dated.logged, dated.watched,
      fun active q member => by
        obtain ⟨after, past, holds⟩ := dated.time active q member
        exact ⟨after, Nat.le_trans past later, holds⟩⟩
  | adopt candidate next waiting =>
    have waits := h.waits candidate next waiting
    exact ⟨Nat.le_trans dated.lower_le waits.grows, waits.past,
      fun e member => (dated.logged e member).mono waits.grows,
      fun e member => (dated.watched e member).mono waits.grows, dated.time⟩
  | slide free fast current =>
    exact ⟨Nat.le_trans dated.lower_le dated.upper_le, Nat.le_refl _,
      fun e member => (dated.logged e member).mono dated.upper_le,
      fun e member => (dated.watched e member).mono dated.upper_le, dated.time⟩
  | readOwn l kind v free logged =>
    refine ⟨dated.lower_le, dated.upper_le, dated.logged, dated.watched, ?_⟩
    intro active
    rw [Seat.taken_own d (Seat.source_of_logged logged)]
    exact dated.time active
  | readHeld l kind v stamp free held unlogged recent loaded =>
    exact ⟨dated.lower_le, dated.upper_le, dated.logged, dated.watched,
      fun active => timed (c := d.context) unlogged loaded active⟩
  | readFree l kind v stamp free slow unheld word recent loaded =>
    refine ⟨dated.lower_le, dated.upper_le, fun e member => ?_, dated.watched,
      timed (h.owning.wellFormed.value?_of_not_held unheld) loaded⟩
    cases List.mem_append.mp member with
    | inl member => exact dated.logged e member
    | inr single =>
      rw [List.mem_singleton.mp single]
      exact ⟨rfl, recent⟩
  | readFast l kind v stamp free fast unheld word recent loaded =>
    refine ⟨dated.lower_le, dated.upper_le, dated.logged, fun e member => ?_,
      timed (h.owning.wellFormed.value?_of_not_held unheld) loaded⟩
    -- A push keeps entries of the window, or drops the oldest.
    cases List.mem_append.mp member with
    | inl kept =>
      refine dated.watched e ?_
      split at kept
      · exact List.mem_of_mem_tail kept
      · exact kept
    | inr single =>
      rw [List.mem_singleton.mp single]
      exact ⟨rfl, recent⟩
  | writeHeld l v writes free exist word logged =>
    refine ⟨dated.lower_le, dated.upper_le, dated.logged, dated.watched, ?_⟩
    intro active
    rw [Seat.taken_write]
    exact dated.time active
  | writeFree l v stamp writes free active exist slow word logged =>
    refine ⟨dated.lower_le, dated.upper_le, dated.logged, dated.watched, ?_⟩
    intro active
    rw [Seat.taken_write]
    exact dated.time active
  | writeFirst l v stamp writes free active exist fast word logged =>
    refine ⟨dated.lower_le, dated.upper_le, ?_, fun e member => (by cases member), ?_⟩
    · intro e member
      cases List.mem_append.mp member with
      | inl member => exact dated.logged e member
      | inr member => exact dated.watched e member
    · intro active
      rw [Seat.taken_write]
      exact dated.time active
  | begin block mode table free may back =>
    exact ⟨Nat.le_refl _, Nat.le_refl _, fun e member => (by cases member),
      fun e member => (by cases member), fun _ q member => (by cases member)⟩
  | abandon table active noExtension back =>
    have slots : table.slotOf = d.slotOf := LockTable.slotOf_congr (h.given_back back).bits
    refine ⟨dated.lower_le, dated.upper_le, ?_, ?_, fun active => by cases active⟩
    · show ∀ e ∈ d.context.reads.entries, e.Placed table.slotOf d.context.upper
      rw [slots]
      exact dated.logged
    · show ∀ e ∈ d.context.window.entries, e.Placed table.slotOf d.context.upper
      rw [slots]
      exact dated.watched
  | commitReads =>
    exact ⟨dated.lower_le, dated.upper_le, dated.logged, dated.watched, fun active => by cases active⟩
  | commitWrites stamp table memory free active wrote next small checked stored =>
    have slots : table.slotOf = d.slotOf := LockTable.slotOf_congr (h.stored small stored).1.bits
    refine ⟨dated.lower_le, ?_, ?_, ?_, fun active => by cases active⟩
    · have := dated.upper_le
      show d.context.upper ≤ stamp
      omega
    · show ∀ e ∈ d.context.reads.entries, e.Placed table.slotOf d.context.upper
      rw [slots]
      exact dated.logged
    · show ∀ e ∈ d.context.window.entries, e.Placed table.slotOf d.context.upper
      rw [slots]
      exact dated.watched
  | _ => exact ⟨dated.lower_le, dated.upper_le, dated.logged, dated.watched, dated.time⟩

/-! ## Standing still before the bound moves -/

theorem Sound.waits_move (h : Sound allowed m₀ d) (move : Move allowed d d') {candidate : Nat}
    {next : AfterExtension} (standing : d'.pending = some (.extend candidate next)) :
    d'.Waits m₀ candidate next := by
  cases move with
  | count now published tally conflict extended broken later small stillExtended =>
    have waits := h.waits candidate next standing
    refine ⟨waits.grows, Nat.le_trans waits.past later, waits.consistent, ?_⟩
    have awaited := waits.awaited
    cases next with
    | answer => exact stillExtended awaited
    | loadHeld l kind => exact awaited
    | recheck l kind slot stamp v => exact awaited
  | turn next' noExtension =>
    replace standing : next' = some (.extend candidate next) := standing
    rw [standing] at noExtension
    exact absurd trivial noExtension
  -- The check of the logged reads has just passed, so all reads are what memory holds now.
  | suspend next' free current ready =>
    cases standing
    refine ⟨h.dated.upper_le, Nat.le_refl _, ?_, ?_⟩
    · intro active regular q member
      exact h.holds_at_clock.mpr (h.holds_now current ((h.snapshot active regular).backed q member))
    · cases next with
      | answer => exact ready
      | loadHeld l kind =>
        obtain ⟨active, owns, unlogged⟩ := ready
        obtain ⟨stamp, own⟩ := Option.isSome_iff_exists.mp owns
        exact ⟨active, unlogged, stamp, own, h.stamp_le_clock own⟩
      | recheck l kind slot stamp v =>
        -- The value was loaded under a free slot, so it is what memory holds since the slot's stamp.
        obtain ⟨active, slow, here, unheld, word, loaded⟩ := ready
        obtain ⟨has, value⟩ := Memory.peek_eq_ok_iff.mp loaded
        have same := h.ledger.free slot stamp word
        have recent : stamp ≤ d.runtime.clock.now := same ▸ h.ledger.version_le_now slot
        refine ⟨active, slow, here, unheld, recent, has, ?_⟩
        rw [here] at same
        rw [← value, ← h.ledger.contentAt_eq (Nat.le_of_eq same)]
  | slide free => cases free.symm.trans standing
  | abandon table active noExtension =>
    rw [show d.pending = some (.extend candidate next) from standing] at noExtension
    exact absurd trivial noExtension
  | _ => cases standing

end TransactionalMemory
