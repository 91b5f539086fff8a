import TransactionalMemory.Call
import TransactionalMemory.Proofs.RedoLog

/-! # The slots that a context holds

A context holds exactly the slots that its log of writes names, and no slot unless it is active.  A
segment of a call can do five things to them: nothing, log one more write under a slot that is held,
take a slot for a first write under it, give all slots back under their old stamps, and give them all
back under a new one.  Each keeps a context in the holding of its slots and leaves the slots of others
alone.

Nothing here depends on what the writes are: a field that does not exist, or a clock that is full, makes
a commit meet a fault on the way, and then the slots stay held (`RedoLog.WellFormed.commit_cases`).
-/

namespace TransactionalMemory

/-- Every free slot has a stamp that it can be given back under. -/
def LockTable.Stamped (t : LockTable) : Prop := ∀ slot stamp, t.word slot = .free stamp → stamp < lockBit

/-! ## Committing a log of any writes -/

theorem RedoLog.WellFormed.commit_cases {log : RedoLog} {t : LockTable} {owner : OwnerId}
    (wf : log.WellFormed t.slotOf)
    (held : ∀ slot stamp, log.stamp? slot = some stamp → t.word slot = .held owner) (stamp : Nat)
    (m : Memory) :
    (∃ f m', log.commit stamp t m = (.error f, log, t, m')) ∨
    ∃ t' m', log.commit stamp t m = (.ok (), {}, t', m') ∧ GivenBack log (fun _ => stamp) t t' ∧
      ∀ slot s, log.stamp? slot = some s → stamp < lockBit := by
  simp only [RedoLog.commit]
  cases stored : RedoLog.store log.entries m with
  | mk result m' =>
    cases result with
    | error f => exact Or.inl ⟨f, m', rfl⟩
    | ok _ =>
      by_cases small : stamp < lockBit
      · obtain ⟨t', released, back⟩ := wf.release held small
        exact Or.inr ⟨t', m', by simp only [released], back, fun _ _ _ => small⟩
      · -- A stamp that is too large is refused for the first slot, and no slot is released.
        cases slots : log.heads with
        | nil =>
          have none : ∀ slot, log.stamp? slot = none := fun slot =>
            stamp?_eq_none_iff.mpr (by rw [slots]; exact List.forall_mem_nil _)
          refine Or.inr ⟨t, m', by simp only [heldUnder, slots, List.map_nil, RedoLog.release],
            ⟨rfl, fun slot => by rw [none slot]⟩, fun slot s own => ?_⟩
          rw [none slot] at own
          cases own
        | cons g rest =>
          refine Or.inl ⟨.stampTooLarge, m', ?_⟩
          simp only [heldUnder, slots, List.map_cons, RedoLog.release, LockTable.release,
            if_pos (Nat.not_lt.mp small)]

namespace Scope

/-! ## Holding slots -/

/-- The context holds the slots that its log of writes names, with stamps that they can be given back
    under, and holds none unless it is active. -/
structure Holding (s : Scope) : Prop where
  wellFormed : s.context.writes.WellFormed s.runtime.table.slotOf
  held : ∀ slot stamp, s.context.writes.stamp? slot = some stamp →
    s.runtime.table.word slot = .held s.context.owner
  small : ∀ slot stamp, s.context.writes.stamp? slot = some stamp → stamp < lockBit
  listed : ∀ slot, s.runtime.table.word slot = .held s.context.owner → s.context.writes.owns slot = true
  idle : s.context.phase ≠ .active → s.context.writes = {}

/-- What becomes of the slots of a context. -/
inductive Handles (s s' : Scope) : Prop where
  | keep (table : s'.runtime.table = s.runtime.table) (writes : s'.context.writes = s.context.writes)
      (phase : s'.context.phase = s.context.phase)
  /-- One more write under a slot that is held. -/
  | log (l : Location) (v : Value) (active : s'.context.phase = .active)
      (table : s'.runtime.table = s.runtime.table)
      (held : s.runtime.table.word (s.runtime.table.slotOf l) = .held s.context.owner)
      (logged : s.context.writes.append (s.runtime.table.slotOf l) l v none = .ok s'.context.writes)
  /-- A slot is taken for the first write under it. -/
  | take (l : Location) (v : Value) (stamp : Nat) (active : s'.context.phase = .active)
      (free : s.runtime.table.word (s.runtime.table.slotOf l) = .free stamp)
      (table : s'.runtime.table =
        s.runtime.table.set (s.runtime.table.slotOf l) (.held s.context.owner))
      (logged : s.context.writes.append (s.runtime.table.slotOf l) l v (some stamp) =
        .ok s'.context.writes)
  /-- All slots are given back, under what is made of their old stamps. -/
  | giveBack (stampOf : Nat → Nat)
      (given : RedoLog.GivenBack s.context.writes stampOf s.runtime.table s'.runtime.table)
      (small : ∀ slot stamp, s.context.writes.stamp? slot = some stamp → stampOf stamp < lockBit)
      (empty : s'.context.writes = {})

variable {s s' : Scope} {l : Location} {v : Value} {stamp : Nat}

theorem Handles.refl (s : Scope) : Handles s s := .keep rfl rfl rfl

theorem Handles.bits (c : Handles s s') : s'.runtime.table.bits = s.runtime.table.bits := by
  cases c with
  | keep table => rw [table]
  | log l v active table => rw [table]
  | take l v stamp active free table => rw [table, LockTable.bits_set]
  | giveBack stampOf given => exact given.bits

namespace Holding

theorem stamp?_of_held (h : s.Holding) {slot : Nat}
    (word : s.runtime.table.word slot = .held s.context.owner) :
    ∃ stamp, s.context.writes.stamp? slot = some stamp :=
  Option.isSome_iff_exists.mp (h.listed slot word)

theorem stamp?_of_not_held (h : s.Holding) {slot : Nat}
    (word : s.runtime.table.word slot ≠ .held s.context.owner) :
    s.context.writes.stamp? slot = none := by
  cases own : s.context.writes.stamp? slot with
  | none => rfl
  | some stamp => exact absurd (h.held slot stamp own) word

/-- A context with an empty log holds no slot. -/
theorem of_empty (empty : s.context.writes = {})
    (none : ∀ slot, s.runtime.table.word slot ≠ .held s.context.owner) : s.Holding where
  wellFormed := by rw [empty]; exact RedoLog.wellFormed_empty _
  held slot stamp own := by rw [empty] at own; cases own
  small slot stamp own := by rw [empty] at own; cases own
  listed slot held := absurd held (none slot)
  idle _ := empty

theorem keep (h : s.Holding) (owner : s'.context.owner = s.context.owner)
    (table : s'.runtime.table = s.runtime.table) (writes : s'.context.writes = s.context.writes)
    (phase : s'.context.phase = s.context.phase) : s'.Holding where
  wellFormed := by rw [table, writes]; exact h.wellFormed
  held := by rw [table, writes, owner]; exact h.held
  small := by rw [writes]; exact h.small
  listed := by rw [table, writes, owner]; exact h.listed
  idle := by rw [phase, writes]; exact h.idle

theorem log (h : s.Holding) (owner : s'.context.owner = s.context.owner)
    (active : s'.context.phase = .active) (table : s'.runtime.table = s.runtime.table)
    (logged : s.context.writes.append (s.runtime.table.slotOf l) l v none = .ok s'.context.writes) :
    s'.Holding := by
  have appended := h.wellFormed.append logged
  -- The slot is held already, so the stamps do not change.
  have stamps : ∀ slot, s'.context.writes.stamp? slot = s.context.writes.stamp? slot := fun slot => by
    rw [appended.stamps slot]
    split
    · next both => exact both.2.symm
    · rfl
  refine ⟨by rw [table]; exact appended.wellFormed, ?_, ?_, ?_, fun inactive => absurd active inactive⟩
  · intro slot stamp own
    rw [stamps slot] at own
    rw [table, owner]
    exact h.held slot stamp own
  · intro slot stamp own
    rw [stamps slot] at own
    exact h.small slot stamp own
  · intro slot held
    rw [table, owner] at held
    rw [RedoLog.owns, stamps slot]
    exact h.listed slot held

theorem take (h : s.Holding) (owner : s'.context.owner = s.context.owner)
    (active : s'.context.phase = .active)
    (free : s.runtime.table.word (s.runtime.table.slotOf l) = .free stamp) (small : stamp < lockBit)
    (table : s'.runtime.table = s.runtime.table.set (s.runtime.table.slotOf l) (.held s.context.owner))
    (logged : s.context.writes.append (s.runtime.table.slotOf l) l v (some stamp) =
      .ok s'.context.writes) : s'.Holding := by
  have appended := h.wellFormed.append logged
  have slots : s'.runtime.table.slotOf = s.runtime.table.slotOf :=
    LockTable.slotOf_congr (by rw [table, LockTable.bits_set])
  have unheld : s.context.writes.stamp? (s.runtime.table.slotOf l) = none :=
    h.stamp?_of_not_held (by rw [free]; exact LockWord.noConfusion)
  have stamps : ∀ slot, s'.context.writes.stamp? slot =
      if slot = s.runtime.table.slotOf l then some stamp else s.context.writes.stamp? slot := fun slot => by
    rw [appended.stamps slot]
    by_cases same : slot = s.runtime.table.slotOf l
    · rw [if_pos same, if_pos ⟨same, same ▸ unheld⟩]
    · rw [if_neg same, if_neg fun both => same both.1]
  have words : ∀ slot, s'.runtime.table.word slot =
      if s.runtime.table.slotOf l = slot then .held s.context.owner else s.runtime.table.word slot :=
    fun slot => by rw [table, LockTable.word_set]
  refine ⟨by rw [slots]; exact appended.wellFormed, ?_, ?_, ?_, fun inactive => absurd active inactive⟩
  · intro slot stamp own
    rw [stamps slot] at own
    rw [words slot, owner]
    split
    · rfl
    · next other => exact h.held slot stamp (by rwa [if_neg (Ne.symm other)] at own)
  · intro slot stamp own
    rw [stamps slot] at own
    split at own
    · cases own
      exact small
    · exact h.small slot stamp own
  · intro slot held
    rw [words slot, owner] at held
    rw [RedoLog.owns, stamps slot]
    split at held
    · next same => rw [if_pos same.symm]; rfl
    · next other =>
      rw [if_neg (Ne.symm other)]
      exact h.listed slot held

/-- Once its slots are given back, a context holds none. -/
theorem word_of_givenBack (h : s.Holding) {stampOf : Nat → Nat} {table : LockTable}
    (given : RedoLog.GivenBack s.context.writes stampOf s.runtime.table table) (slot : Nat) :
    table.word slot ≠ .held s.context.owner := by
  rw [given.word slot]
  cases own : s.context.writes.stamp? slot with
  | some stamp => exact LockWord.noConfusion
  | none =>
    intro held
    obtain ⟨stamp, some⟩ := h.stamp?_of_held held
    rw [own] at some
    cases some

theorem handles (h : s.Holding) (stamped : s.runtime.table.Stamped)
    (owner : s'.context.owner = s.context.owner) (c : Handles s s') : s'.Holding := by
  cases c with
  | keep table writes phase => exact h.keep owner table writes phase
  | log l v active table held logged => exact h.log owner active table logged
  | take l v stamp active free table logged =>
    exact h.take owner active free (stamped _ _ free) table logged
  | giveBack stampOf given small empty =>
    exact of_empty empty (by rw [owner]; exact h.word_of_givenBack given)

end Holding

/-! ## The slots of others -/

theorem Handles.stamped (c : Handles s s') (stamped : s.runtime.table.Stamped) :
    s'.runtime.table.Stamped := by
  cases c with
  | keep table => rw [table]; exact stamped
  | log l v active table => rw [table]; exact stamped
  | take l v stamp active free table =>
    intro slot stamp' word
    rw [table, LockTable.word_set] at word
    split at word
    · cases word
    · exact stamped slot stamp' word
  | giveBack stampOf given small =>
    intro slot stamp word
    rw [given.word slot] at word
    cases own : s.context.writes.stamp? slot with
    | none =>
      rw [own] at word
      exact stamped slot stamp word
    | some old =>
      rw [own] at word
      cases word
      exact small slot old own

/-- Other owners hold the same slots as before. -/
theorem Handles.word_iff (c : Handles s s') (h : s.Holding) {other : OwnerId}
    (differs : other ≠ s.context.owner) (slot : Nat) :
    s'.runtime.table.word slot = .held other ↔ s.runtime.table.word slot = .held other := by
  cases c with
  | keep table => rw [table]
  | log l v active table => rw [table]
  | take l v stamp active free table =>
    rw [table, LockTable.word_set]
    split
    · next same =>
      rw [← same, free]
      constructor
      · intro own
        cases own
        exact absurd rfl differs
      · exact LockWord.noConfusion
    · exact Iff.rfl
  | giveBack stampOf given =>
    rw [given.word slot]
    cases own : s.context.writes.stamp? slot with
    | none => exact Iff.rfl
    | some old =>
      rw [h.held slot old own]
      constructor
      · exact LockWord.noConfusion
      · intro own
        cases own
        exact absurd rfl differs

/-- A slot that the context holds now was held before with the same stamp, or was free with it. -/
theorem Handles.stamp?_cases (c : Handles s s') (h : s.Holding) {slot : Nat}
    (own : s'.context.writes.stamp? slot = some stamp) :
    s.context.writes.stamp? slot = some stamp ∨ s.runtime.table.word slot = .free stamp := by
  cases c with
  | keep table writes => exact Or.inl (writes ▸ own)
  | log l v active table held logged =>
    rw [(h.wellFormed.append logged).stamps slot] at own
    split at own
    · cases own
    · exact Or.inl own
  | take l v stamp' active free table logged =>
    rw [(h.wellFormed.append logged).stamps slot] at own
    split at own
    · next taken =>
      cases own
      exact Or.inr (taken.1 ▸ free)
    · exact Or.inl own
  | giveBack stampOf given small empty =>
    rw [empty] at own
    cases own

/-- A context that others have left alone holds its slots on. -/
theorem Holding.beside {c : Context} {r r' : Runtime} (h : Holding ⟨r, c⟩)
    (bits : r'.table.bits = r.table.bits)
    (words : ∀ slot, r'.table.word slot = .held c.owner ↔ r.table.word slot = .held c.owner) :
    Holding ⟨r', c⟩ where
  wellFormed := by
    rw [show r'.table.slotOf = r.table.slotOf from LockTable.slotOf_congr bits]
    exact h.wellFormed
  held slot stamp own := (words slot).mpr (h.held slot stamp own)
  small := h.small
  listed slot held := h.listed slot ((words slot).mp held)
  idle := h.idle

end Scope

end TransactionalMemory
