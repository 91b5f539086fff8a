import TransactionalMemory.Proofs.Stamps

/-! # An attempt that has its slots to itself

While nobody else touches the slots of an area, and the fields under them, an attempt that keeps to these slots is
the plain execution of its accesses (`Scope.Secluded`): the words that it would read are those of memory, as
they were when the attempt began, with its log laid over them, and no slot of the area carries a stamp
beyond the bound of its snapshot.  So no read has to extend the snapshot, no slot is refused, and the recent
reads of an elastic attempt stay current; each call answers at once, as the plain execution does.  What others
do outside of the area makes no difference (`Scope.Secluded.beside`), and the attempt leaves what is outside
of the area alone (`Runtime.Confined`).
-/

namespace TransactionalMemory

/-! ## Slots that are free for an owner -/

/-- Nobody but the owner holds the slot. -/
def LockWord.isFreeFor (owner : OwnerId) : LockWord → Bool
  | free _ => true
  | held holder => holder = owner

/-- Nobody but the owner holds a slot of the table. -/
def LockTable.FreeFor (t : LockTable) (owner : OwnerId) : Prop :=
  ∀ slot < t.size, (t.word slot).isFreeFor owner = true

instance (t : LockTable) (owner : OwnerId) : Decidable (t.FreeFor owner) :=
  inferInstanceAs (Decidable (∀ slot < t.size, _))

/-- A look at the lock of a field finds out whether another owner holds it. -/
theorem Scope.probe_of_active {s : Scope} (active : s.context.phase = .active) (l : Location) :
    s.probe l =
      if (s.runtime.table.word (s.runtime.table.slotOf l)).isFreeFor s.context.owner then (.answered .done, s)
      else s.abort .lockedByOther .access := by
  have unobstructed : s.obstacle? = none := by rw [obstacle?, active]
  have checked := LockTable.check_of_lt (LockTable.slotOf_lt_size s.runtime.table l) s.context.owner
  unfold probe
  rw [unobstructed]
  generalize s.runtime.table.check _ _ = found at checked ⊢
  generalize s.runtime.table.slotOf l = slot at checked ⊢
  subst checked
  cases s.runtime.table.word slot with
  | free stamp => rfl
  | held holder =>
    by_cases own : holder = s.context.owner
    · simp only [own, LockWord.isFreeFor, decide_true, ↓reduceIte]
    · simp only [own, LockWord.isFreeFor, decide_false, Bool.false_eq_true, ↓reduceIte, Contention.conflict]

theorem Scope.read_of_active {s : Scope} (active : s.context.phase = .active) (l : Location) (kind : Kind) :
    s.read l kind =
      if (s.runtime.table.word (s.runtime.table.slotOf l)).isFreeFor s.context.owner then s.load l kind
      else s.abort .lockedByOther .access := by
  unfold read
  rw [probe_of_active active]
  by_cases free : (s.runtime.table.word (s.runtime.table.slotOf l)).isFreeFor s.context.owner = true
  · rw [if_pos free, if_pos free]
  · rw [if_neg free, if_neg free]
    rfl

/-! ## Reads that are current -/

theorem ReadEntry.Current.isCurrent {e : ReadEntry} {t : LockTable} {owner : OwnerId} {writes : RedoLog}
    (h : e.Current t owner writes) (inside : e.slot < t.size) : e.isCurrent t owner writes = .ok true := by
  unfold ReadEntry.isCurrent
  rw [LockTable.load_of_lt inside]
  rcases h with free | ⟨held, own⟩
  · simp [free, bind, Except.bind, pure, Except.pure]
  · simp [held, own, bind, Except.bind, pure, Except.pure]

theorem allCurrent_of_current {t : LockTable} {owner : OwnerId} {writes : RedoLog} :
    ∀ {entries : List ReadEntry}, (∀ e ∈ entries, e.slot < t.size ∧ e.Current t owner writes) →
      allCurrent t owner writes entries = .ok true
  | [], _ => rfl
  | e :: entries, current => by
    obtain ⟨⟨inside, first⟩, rest⟩ := List.forall_mem_cons.mp current
    rw [allCurrent, first.isCurrent inside]
    exact allCurrent_of_current rest

theorem Window.mem_push {w : Window} {e e' : ReadEntry} (member : e' ∈ (w.push e).entries) :
    e' = e ∨ e' ∈ w.entries := by
  simp only [push, List.mem_append, List.mem_singleton] at member
  rcases member with kept | same
  · split at kept
    · exact Or.inr (List.mem_of_mem_tail kept)
    · exact Or.inr kept
  · exact Or.inl same

/-! ## Logging -/

namespace RedoLog

variable {log log' : RedoLog} {slotOf : Location → Nat} {l : Location} {v : Value} {stamp : Option Nat}

theorem Appended.location_cases (h : Appended log log' slotOf l v stamp) (wf : log.WellFormed slotOf)
    {e : WriteEntry} (member : e ∈ log'.entries) :
    e.location = l ∨ ∃ e' ∈ log.entries, e'.location = e.location := by
  have logged := (value?_eq_some_iff h.wellFormed).mpr ⟨e, member, rfl, rfl⟩
  rw [h.value e.location] at logged
  split at logged
  · next same => exact Or.inl same
  · obtain ⟨e', member', same, -⟩ := (value?_eq_some_iff wf).mp logged
    exact Or.inr ⟨e', member', same⟩

end RedoLog

namespace Scope

/-! ## The plain execution -/

/-- What there was when an attempt began. -/
structure Outset where
  memory : Memory
  clock : Clock
  mode : Mode
  tally : Tally

/-- Logged reads are of slots of an area, and still current. -/
def CurrentIn (s : Scope) (area : Nat → Prop) (entries : List ReadEntry) : Prop :=
  ∀ e ∈ entries, e.slot < s.runtime.table.size ∧ area e.slot ∧
    e.Current s.runtime.table s.context.owner s.context.writes

/-- The attempt has kept to the slots of an area, and nobody else has touched them since it began: it is as if its
    accesses so far had gone to memory directly, which would have the given words now. -/
structure Secluded (s : Scope) (area : Nat → Prop) (o : Outset) (words : Words) (wrote : Bool) : Prop where
  holding : s.Holding
  active : s.context.phase = .active
  small : o.clock.now < lockBit
  shape : o.memory.SameShape s.runtime.memory
  memory : ∀ l, area (s.runtime.table.slotOf l) → s.runtime.memory.words l = o.memory.words l
  mode : s.context.mode = o.mode
  tally : s.context.tally = o.tally
  lower : s.context.lower ≤ s.runtime.clock.now
  upper : o.clock.now ≤ s.context.upper
  alone : ∀ slot < s.runtime.table.size, area slot →
    (s.runtime.table.word slot).isFreeFor s.context.owner = true
  free : ∀ slot stamp, area slot → s.runtime.table.word slot = .free stamp → stamp ≤ o.clock.now
  remembered : ∀ slot stamp, s.context.writes.stamp? slot = some stamp → area slot ∧ stamp ≤ o.clock.now
  window : s.CurrentIn area s.context.window.entries
  exist : ∀ e ∈ s.context.writes.entries, o.memory.Has e.location
  words : overlay s.context.writes.entries o.memory.words = words
  wrote : s.context.writes.isEmpty = !wrote

end Scope

/-- What is outside of an area of slots has stayed as it was. -/
structure Runtime.Confined (area : Nat → Prop) (r r' : Runtime) : Prop where
  bits : r'.table.bits = r.table.bits
  word : ∀ slot, ¬ area slot → r'.table.word slot = r.table.word slot
  shape : r.memory.SameShape r'.memory
  words : ∀ l, ¬ area (r.table.slotOf l) → r'.memory.words l = r.memory.words l
  clock : r.clock.now ≤ r'.clock.now

theorem Runtime.Confined.of_memory {area : Nat → Prop} {r r' : Runtime} (bits : r'.table.bits = r.table.bits)
    (word : ∀ slot, ¬ area slot → r'.table.word slot = r.table.word slot) (memory : r'.memory = r.memory)
    (clock : r'.clock = r.clock) : r.Confined area r' where
  bits := bits
  word := word
  shape := by rw [memory]; exact fun _ => rfl
  words l _ := by rw [memory]
  clock := by rw [clock]

namespace Scope

/-- An access has stored nothing, and has not moved the snapshot. -/
structure Accessed (s : Scope) (area : Nat → Prop) (s' : Scope) : Prop where
  memory : s'.runtime.memory = s.runtime.memory
  clock : s'.runtime.clock = s.runtime.clock
  lower : s'.context.lower = s.context.lower
  upper : s'.context.upper = s.context.upper
  bits : s'.runtime.table.bits = s.runtime.table.bits
  word : ∀ slot, ¬ area slot → s'.runtime.table.word slot = s.runtime.table.word slot
  reads : s.CurrentIn area s.context.reads.entries → s'.CurrentIn area s'.context.reads.entries

/-- An attempt has begun, on a snapshot that has been taken now. -/
structure Begun (s : Scope) (area : Nat → Prop) (s' : Scope) : Prop where
  memory : s'.runtime.memory = s.runtime.memory
  clock : s'.runtime.clock = s.runtime.clock
  lower : s'.context.lower = s.runtime.clock.now
  upper : s'.context.upper = s.runtime.clock.now
  reads : s'.context.reads = {}
  bits : s'.runtime.table.bits = s.runtime.table.bits
  word : ∀ slot, ¬ area slot → s'.runtime.table.word slot = s.runtime.table.word slot

variable {s s' : Scope} {area : Nat → Prop}

theorem Accessed.refl (s : Scope) (area : Nat → Prop) : s.Accessed area s :=
  ⟨rfl, rfl, rfl, rfl, rfl, fun _ _ => rfl, id⟩

theorem Accessed.trans {s'' : Scope} (a : s.Accessed area s') (a' : s'.Accessed area s'') :
    s.Accessed area s'' where
  memory := a'.memory.trans a.memory
  clock := a'.clock.trans a.clock
  lower := a'.lower.trans a.lower
  upper := a'.upper.trans a.upper
  bits := a'.bits.trans a.bits
  word slot outside := (a'.word slot outside).trans (a.word slot outside)
  reads current := a'.reads (a.reads current)

theorem Accessed.confined (a : s.Accessed area s') : s.runtime.Confined area s'.runtime :=
  .of_memory a.bits a.word a.memory a.clock

theorem Begun.confined (b : s.Begun area s') : s.runtime.Confined area s'.runtime :=
  .of_memory b.bits b.word b.memory b.clock

theorem CurrentIn.append {entries entries' : List ReadEntry} (h : s.CurrentIn area entries)
    (h' : s.CurrentIn area entries') : s.CurrentIn area (entries ++ entries') := by
  intro e member
  rcases List.mem_append.mp member with before | after
  · exact h e before
  · exact h' e after

theorem CurrentIn.validated {entries : List ReadEntry} (h : s.CurrentIn area entries) :
    allCurrent s.runtime.table s.context.owner s.context.writes entries = .ok true :=
  allCurrent_of_current fun e member =>
    have ⟨inside, _, current⟩ := h e member
    ⟨inside, current⟩

namespace Secluded

variable {o : Outset} {words : Words} {wrote : Bool} {l : Location} {kind : Kind} {v : Value}
  {slot stamp : Nat}

/-- A slot of the area is free and unknown to the log, or the attempt holds it. -/
theorem slot_cases (u : s.Secluded area o words wrote) (inside : slot < s.runtime.table.size)
    (own : area slot) :
    (∃ stamp ≤ o.clock.now, s.runtime.table.word slot = .free stamp ∧ s.context.writes.stamp? slot = none) ∨
    ∃ stamp ≤ o.clock.now, s.runtime.table.word slot = .held s.context.owner ∧
      s.context.writes.stamp? slot = some stamp := by
  cases word : s.runtime.table.word slot with
  | free stamp =>
    refine Or.inl ⟨stamp, u.free slot stamp own word, rfl, u.holding.stamp?_of_not_held ?_⟩
    rw [word]
    exact LockWord.noConfusion
  | held holder =>
    have self : holder = s.context.owner := by
      have alone := u.alone slot inside own
      rwa [word, LockWord.isFreeFor, decide_eq_true_eq] at alone
    subst self
    obtain ⟨stamp, held⟩ := u.holding.stamp?_of_held word
    exact Or.inr ⟨stamp, (u.remembered slot stamp held).2, rfl, held⟩

theorem obstacle?_eq_none (u : s.Secluded area o words wrote) : s.obstacle? = none := by
  rw [obstacle?, u.active]

/-- What the log does not have is in memory. -/
theorem peek (u : s.Secluded area o words wrote) (has : o.memory.Has l)
    (here : s.runtime.table.slotOf l = slot) (own : area slot)
    (unlogged : s.context.writes.value? slot l = none) (kind : Kind) :
    s.runtime.memory.peek l kind = .ok (Value.decode (words l) kind) := by
  subst here
  rw [Memory.peek_eq_ok_iff, u.memory l own, ← u.words, RedoLog.overlay_apply u.holding.wellFormed, unlogged]
  exact ⟨(u.shape.has l).mpr has, rfl⟩

/-- A read that is logged is current, since its slot is free. -/
theorem logRead (u : s.Secluded area o words wrote) (inside : slot < s.runtime.table.size) (own : area slot)
    (word : s.runtime.table.word slot = .free stamp) :
    Secluded ⟨s.runtime, s.context.logRead ⟨l, slot, stamp⟩⟩ area o words wrote ∧
      s.Accessed area ⟨s.runtime, s.context.logRead ⟨l, slot, stamp⟩⟩ := by
  have logged : s.CurrentIn area [⟨l, slot, stamp⟩] :=
    List.forall_mem_singleton.mpr ⟨inside, own, Or.inl word⟩
  unfold Context.logRead
  split
  · refine ⟨{ u with holding := u.holding.keep rfl rfl rfl rfl, window := fun e member => ?_ },
      { Accessed.refl s area with reads := id }⟩
    rcases Window.mem_push member with rfl | before
    · exact logged _ (List.mem_singleton_self _)
    · exact u.window e before
  · exact ⟨{ u with holding := u.holding.keep rfl rfl rfl rfl },
      { Accessed.refl s area with reads := fun current => current.append logged }⟩

/-! ## Reading -/

theorem load (u : s.Secluded area o words wrote) (own : area (s.runtime.table.slotOf l))
    (has : o.memory.Has l) : ∃ s',
    s.load l kind = (.answered (.value (Value.decode (words l) kind)), s') ∧ s'.Secluded area o words wrote ∧
      s.Accessed area s' := by
  obtain ⟨slot, here⟩ : ∃ slot, s.runtime.table.slotOf l = slot := ⟨_, rfl⟩
  have inside : slot < s.runtime.table.size := here ▸ LockTable.slotOf_lt_size _ l
  rw [here] at own
  have upper := u.upper
  simp only [Scope.load, u.obstacle?_eq_none, here]
  rcases u.slot_cases inside own with ⟨stamp, old, word, unheld⟩ | ⟨stamp, old, word, held⟩
  · -- The slot is free, so nothing under it is logged, and its stamp is within the snapshot.
    have unlogged : s.context.writes.value? slot l = none :=
      here ▸ u.holding.wellFormed.value?_of_not_held (here.symm ▸ unheld)
    have loaded := u.peek has here own unlogged kind
    simp only [unheld, loadFree_eq, LockTable.check_of_lt inside, word, loaded, finishRead, old.trans upper,
      ↓reduceIte]
    exact ⟨_, rfl, u.logRead inside own word⟩
  · cases logged : s.context.writes.value? slot l with
    | some v =>
      have word : words l = v.encode := by
        rw [← u.words, RedoLog.overlay_apply u.holding.wellFormed, here, logged]
      simp only [held, word, ← Value.reinterpret_eq_decode]
      exact ⟨s, rfl, u, .refl s area⟩
    | none =>
      -- The slot is held for another field, and the stamp that it had is within the snapshot.
      have loaded := u.peek has here own logged kind
      simp only [held, old.trans upper, ↓reduceIte, loadHeld, loaded]
      exact ⟨s, rfl, u, .refl s area⟩

theorem probe (u : s.Secluded area o words wrote) (own : area (s.runtime.table.slotOf l)) :
    s.probe l = (.answered .done, s) := by
  rw [probe_of_active u.active]
  exact if_pos (u.alone _ (LockTable.slotOf_lt_size _ l) own)

theorem read (u : s.Secluded area o words wrote) (own : area (s.runtime.table.slotOf l))
    (has : o.memory.Has l) : ∃ s',
    s.read l kind = (.answered (.value (Value.decode (words l) kind)), s') ∧ s'.Secluded area o words wrote ∧
      s.Accessed area s' := by
  simp only [Scope.read, u.probe own]
  exact u.load own has

/-! ## Writing -/

/-- One more write is logged, under a slot of the area that the attempt holds or that it takes. -/
theorem logged (u : s.Secluded area o words wrote) (has : o.memory.Has l) {table : LockTable}
    {writes : RedoLog} (bits : table.bits = s.runtime.table.bits)
    (holding : Holding ⟨{ s.runtime with table }, { s.context with writes }⟩) {taken : Option Nat}
    (appended : s.context.writes.Appended writes s.runtime.table.slotOf l v taken)
    (slots : ∀ slot,
      table.word slot = s.runtime.table.word slot ∧ writes.stamp? slot = s.context.writes.stamp? slot ∨
      area slot ∧ ∃ stamp, s.runtime.table.word slot = .free stamp ∧ table.word slot = .held s.context.owner ∧
        writes.stamp? slot = some stamp) :
    Secluded ⟨{ s.runtime with table }, { s.context with writes }⟩ area o (words.put l v.encode) true ∧
      s.Accessed area ⟨{ s.runtime with table }, { s.context with writes }⟩ := by
  have size : table.size = s.runtime.table.size := LockTable.size_congr bits
  have slotOf : table.slotOf = s.runtime.table.slotOf := LockTable.slotOf_congr bits
  have current : ∀ {entries}, s.CurrentIn area entries →
      CurrentIn ⟨{ s.runtime with table }, { s.context with writes }⟩ area entries := by
    intro entries before e member
    obtain ⟨inside, own, current⟩ := before e member
    refine ⟨size ▸ inside, own, ?_⟩
    rcases slots e.slot with ⟨word, stamp⟩ | ⟨-, stamp, free, held, taken⟩
    · rw [ReadEntry.Current, word, stamp]
      exact current
    · -- The slot of the read is taken, with the stamp that the read has seen.
      rcases current with seen | ⟨held', -⟩
      · cases free.symm.trans seen
        exact Or.inr ⟨held, taken⟩
      · cases free.symm.trans held'
  refine ⟨{ u with holding, memory := ?_, alone := ?_, free := ?_, remembered := ?_, window := current u.window,
                   exist := ?_, words := ?_, wrote := appended.not_isEmpty },
    ⟨rfl, rfl, rfl, rfl, bits, ?_, current⟩⟩
  · intro k own
    refine u.memory k ?_
    rwa [← slotOf]
  · intro slot inside own
    rcases slots slot with ⟨same, -⟩ | ⟨-, stamp, -, held, -⟩
    · rw [same]
      exact u.alone slot (size ▸ inside) own
    · rw [held]
      exact decide_eq_true rfl
  · intro slot stamp own word
    rcases slots slot with ⟨same, -⟩ | ⟨-, stamp', -, held, -⟩
    · exact u.free slot stamp own (same ▸ word)
    · cases held.symm.trans word
  · intro slot stamp own
    rcases slots slot with ⟨-, same⟩ | ⟨here, stamp', free, -, taken⟩
    · exact u.remembered slot stamp (same ▸ own)
    · cases taken.symm.trans own
      exact ⟨here, u.free slot stamp here free⟩
  · intro e member
    rcases appended.location_cases u.holding.wellFormed member with same | ⟨e', member', same⟩
    · exact same ▸ has
    · exact same ▸ u.exist e' member'
  · rw [RedoLog.overlay_append u.holding.wellFormed appended, u.words]
  · intro slot outside
    rcases slots slot with ⟨same, -⟩ | ⟨here, -⟩
    · exact same
    · exact absurd here outside

/-- The recent reads are drained into the read log. -/
theorem drainWindow (u : s.Secluded area o words wrote) :
    Secluded ⟨s.runtime, s.context.drainWindow⟩ area o words wrote ∧
      s.Accessed area ⟨s.runtime, s.context.drainWindow⟩ :=
  ⟨{ u with holding := u.holding.keep rfl rfl rfl rfl, window := List.forall_mem_nil _ },
    { Accessed.refl s area with reads := fun current => current.append u.window }⟩

theorem writeTaken (u : s.Secluded area o words wrote) (has : o.memory.Has l) (v : Value)
    (here : s.runtime.table.slotOf l = slot) (own : area slot) (old : stamp ≤ o.clock.now)
    (word : s.runtime.table.word slot = .free stamp) (unheld : s.context.writes.stamp? slot = none) : ∃ s',
    Scope.writeTaken ⟨{ s.runtime with table := s.runtime.table.set slot (.held s.context.owner) }, s.context⟩
        l slot stamp v = (.answered .done, s') ∧
      s'.Secluded area o (words.put l v.encode) true ∧ s.Accessed area s' := by
  obtain ⟨writes, logged⟩ := RedoLog.append_some s.context.writes slot l v stamp
  obtain ⟨u', a'⟩ : Secluded ⟨{ s.runtime with table := s.runtime.table.set slot (.held s.context.owner) },
        { s.context with writes }⟩ area o (words.put l v.encode) true ∧
      s.Accessed area ⟨{ s.runtime with table := s.runtime.table.set slot (.held s.context.owner) },
        { s.context with writes }⟩ := by
    have small : stamp < lockBit := old.trans_lt u.small
    subst here
    have appended := u.holding.wellFormed.append logged
    refine u.logged has rfl (u.holding.take rfl u.active word small rfl logged) appended fun k => ?_
    rw [LockTable.word_set, appended.stamps k]
    by_cases same : s.runtime.table.slotOf l = k
    · subst same
      exact Or.inr ⟨own, stamp, word, if_pos rfl, if_pos ⟨rfl, unheld⟩⟩
    · rw [if_neg same, if_neg fun both => same both.1.symm]
      exact Or.inl ⟨rfl, rfl⟩
  have recent : ¬ s.context.upper < stamp := Nat.not_lt.mpr (old.trans u.upper)
  -- The reads that are checked are looked up after the write has been logged.
  have current := u'.window.validated
  unfold Scope.writeTaken
  rw [logged]
  simp only [recent, decide_false, Bool.false_and, Bool.false_eq_true, ↓reduceIte, Window.validate, current]
  cases s.context.mode.isElastic with
  | false => exact ⟨_, rfl, u', a'⟩
  | true =>
    cases s.context.isFast with
    | false => exact ⟨_, rfl, u', a'⟩
    | true =>
      obtain ⟨drained, a''⟩ := u'.drainWindow
      exact ⟨_, rfl, drained, a'.trans a''⟩

theorem write (u : s.Secluded area o words wrote) (own : area (s.runtime.table.slotOf l))
    (has : o.memory.Has l) (v : Value) : ∃ s',
    s.write l v = (.answered .done, s') ∧ s'.Secluded area o (words.put l v.encode) true ∧
      s.Accessed area s' := by
  obtain ⟨slot, here⟩ : ∃ slot, s.runtime.table.slotOf l = slot := ⟨_, rfl⟩
  have inside : slot < s.runtime.table.size := here ▸ LockTable.slotOf_lt_size _ l
  rw [here] at own
  unfold Scope.write
  rw [u.obstacle?_eq_none, here]
  dsimp only
  rw [LockTable.acquire_of_lt inside]
  rcases u.slot_cases inside own with ⟨stamp, old, word, unheld⟩ | ⟨stamp, old, word, held⟩
  · rw [word]
    exact u.writeTaken has v here own old word unheld
  · obtain ⟨writes, logged⟩ := s.context.writes.append_of_owns (by rw [RedoLog.owns, held]; rfl) l v
    simp only [word, ↓reduceIte, logged]
    subst here
    have appended := u.holding.wellFormed.append logged
    refine ⟨_, rfl, u.logged has rfl (u.holding.log rfl u.active rfl logged) appended fun k =>
      Or.inl ⟨rfl, ?_⟩⟩
    -- The slot is held already, so the stamps do not change.
    rw [appended.stamps k]
    split
    · next both => exact both.2.symm
    · rfl

/-! ## Starting and committing -/

/-- An attempt that starts while nobody else holds a slot of the area has its slots to itself. -/
theorem of_start (area : Nat → Prop) (h : s.Holding) {m : Memory} {c : Clock} (small : c.now < lockBit)
    (le : c.now ≤ s.runtime.clock.now) (shape : m.SameShape s.runtime.memory)
    (memory : ∀ l, area (s.runtime.table.slotOf l) → s.runtime.memory.words l = m.words l)
    (alone : ∀ slot < s.runtime.table.size, area slot →
      (s.runtime.table.word slot).isFreeFor s.context.owner = true)
    (free : ∀ slot stamp, area slot → s.runtime.table.word slot = .free stamp → stamp ≤ c.now)
    (remembered : ∀ slot stamp, s.context.writes.stamp? slot = some stamp → area slot ∧ stamp ≤ c.now)
    (block : Nat) (mode : Mode) : ∃ s', s.start block mode = (.ok (), s') ∧
      s'.Secluded area ⟨m, c, mode, s.context.tally⟩ m.words false ∧ s.Begun area s' := by
  obtain ⟨table, given, started⟩ := h.start_eq
  have slotOf : table.slotOf = s.runtime.table.slotOf := LockTable.slotOf_congr given.bits
  refine ⟨_, started block mode, ?_, ⟨rfl, rfl, rfl, rfl, rfl, given.bits, ?_⟩⟩
  · exact
      { holding := .of_empty rfl (h.word_of_givenBack given)
        active := rfl
        small
        shape
        memory := fun l own => memory l (slotOf ▸ own)
        mode := rfl
        tally := rfl
        lower := Nat.le_refl _
        upper := le
        alone := by
          intro slot inside own
          change (table.word slot).isFreeFor s.context.owner = true
          rw [given.word slot]
          cases s.context.writes.stamp? slot with
          | some stamp => rfl
          | none =>
            refine alone slot ?_ own
            rwa [← LockTable.size_congr given.bits]
        free := by
          intro slot stamp own word
          rcases given.stamp_cases word with before | ⟨old, held, rfl⟩
          · exact free slot stamp own before
          · exact (remembered slot _ held).2
        remembered := fun _ _ own => by cases own
        window := List.forall_mem_nil _
        exist := List.forall_mem_nil _
        words := rfl
        wrote := rfl }
  · intro slot outside
    refine given.word_of_unheld (Option.eq_none_iff_forall_ne_some.mpr fun stamp held => ?_)
    exact outside (remembered slot stamp held).1

theorem unheld (u : s.Secluded area o words wrote) (outside : ¬ area slot) :
    s.context.writes.stamp? slot = none :=
  Option.eq_none_iff_forall_ne_some.mpr fun stamp held => outside (u.remembered slot stamp held).1

/-- The log lies over the words of the area as it did over those that there were when the attempt began, and it
    has nothing outside of the area. -/
theorem overlay_eq (u : s.Secluded area o words wrote) (l : Location) :
    (area (s.runtime.table.slotOf l) → overlay s.context.writes.entries s.runtime.memory.words l = words l) ∧
    (¬ area (s.runtime.table.slotOf l) →
      overlay s.context.writes.entries s.runtime.memory.words l = s.runtime.memory.words l) := by
  have wf := u.holding.wellFormed
  rw [RedoLog.overlay_apply wf, ← u.words, RedoLog.overlay_apply wf]
  refine ⟨fun own => by rw [u.memory l own], fun outside => ?_⟩
  rw [wf.value?_of_not_held (u.unheld outside)]

theorem finishCommit_verdict (s : Scope) (wroteNothing : Bool) : ∃ context,
    s.finishCommit wroteNothing =
      (match s.context.tally.countCommit s.context.mode wroteNothing with
        | .ok _ => .answered (.verdict true)
        | .error f => .faulted f, ⟨s.runtime, context⟩) := by
  unfold Scope.finishCommit
  dsimp only
  cases s.context.tally.countCommit s.context.mode wroteNothing <;> exact ⟨_, rfl⟩

/-- A commit stores the writes of the attempt, and it answers so unless the commit cannot be counted.  Others may
    have committed since the attempt began, but then its logged reads have to be current. -/
theorem commit (u : s.Secluded area o words wrote)
    (small : wrote = true → s.runtime.clock.now < lockBit - 1)
    (passes : s.context.lower = s.runtime.clock.now ∨ s.CurrentIn area s.context.reads.entries) : ∃ s',
    s.commit .commit =
      (match o.tally.countCommit o.mode (!wrote) with
        | .ok _ => .answered (.verdict true)
        | .error f => .faulted f, s') ∧
      s'.runtime.memory.words = overlay s.context.writes.entries s.runtime.memory.words ∧
      s'.runtime.clock.now = s.runtime.clock.now + wrote.toNat ∧ s.runtime.Confined area s'.runtime := by
  unfold Scope.commit
  rw [u.active, u.wrote, ← u.mode, ← u.tally]
  cases wrote with
  | false =>
    obtain ⟨context, finished⟩ := finishCommit_verdict s true
    have empty := RedoLog.eq_empty u.wrote
    simp only [Bool.not_false, ↓reduceIte]
    refine ⟨_, finished, ?_, rfl, (Accessed.refl s area).confined⟩
    rw [empty]
    rfl
  | true =>
    have small := small rfl
    have ticks := Clock.advance_eq (show s.runtime.clock.now + 1 < lockBit by omega)
    have exist : ∀ e ∈ s.context.writes.entries, s.runtime.memory.Has e.location := fun e member =>
      (u.shape.has e.location).mpr (u.exist e member)
    obtain ⟨table, memory, stored, given, words, shape⟩ := u.holding.wellFormed.commit u.holding.held
      (show s.runtime.clock.now + 1 < lockBit by omega) exist
    have next : counter (s.context.lower + 1) = .ok (s.context.lower + 1) := by
      have lower := u.lower
      have range : lockBit ≤ wordRange := by decide
      exact if_pos (by omega)
    have confined : s.runtime.Confined area { s.runtime with
        clock := ⟨s.runtime.clock.now + 1⟩, table, memory } := by
      refine ⟨given.bits, fun slot outside => given.word_of_unheld (u.unheld outside), shape,
        fun l outside => ?_, Nat.le_succ _⟩
      exact (congrFun words l).trans ((u.overlay_eq l).2 outside)
    obtain ⟨context, finished⟩ := finishCommit_verdict
      ⟨{ s.runtime with clock := ⟨s.runtime.clock.now + 1⟩, table, memory }, { s.context with writes := {} }⟩ false
    have stores : ∀ p, p = Scope.storeWrites ⟨{ s.runtime with clock := ⟨s.runtime.clock.now + 1⟩ }, s.context⟩
        (s.runtime.clock.now + 1) → p = finishCommit ⟨{ s.runtime with
          clock := ⟨s.runtime.clock.now + 1⟩, table, memory }, { s.context with writes := {} }⟩ false := by
      rintro p rfl
      simp only [storeWrites, stored]
    simp only [Bool.not_true, Bool.false_eq_true, ↓reduceIte, ticks, commitAt, next]
    refine ⟨_, (stores _ ?_).trans finished, words, rfl, confined⟩
    rcases passes with same | current
    · exact if_pos (congrArg (· + 1) same.symm)
    · rw [show s.context.reads.validate s.runtime.table s.context.owner s.context.writes = .ok true from
        current.validated]
      exact ite_self _

end Secluded

/-! ## What others do -/

section

variable {c : Context} {r r' : Runtime} {others : Nat → Prop}

theorem CurrentIn.beside {entries : List ReadEntry} (h : CurrentIn ⟨r, c⟩ area entries)
    (confined : r.Confined others r') (apart : ∀ slot, area slot → ¬ others slot) :
    CurrentIn ⟨r', c⟩ area entries := by
  intro e member
  obtain ⟨inside, own, current⟩ := h e member
  have size : r'.table.size = r.table.size := LockTable.size_congr confined.bits
  refine ⟨size ▸ inside, own, ?_⟩
  rw [ReadEntry.Current, confined.word _ (apart _ own)]
  exact current

/-- An attempt that has its slots to itself does not notice what others do to other slots. -/
theorem Secluded.beside {o : Outset} {words : Words} {wrote : Bool} (u : Secluded ⟨r, c⟩ area o words wrote)
    (confined : r.Confined others r') (apart : ∀ slot, area slot → ¬ others slot)
    (holding : Holding ⟨r', c⟩) : Secluded ⟨r', c⟩ area o words wrote := by
  have size : r'.table.size = r.table.size := LockTable.size_congr confined.bits
  have slotOf : r'.table.slotOf = r.table.slotOf := LockTable.slotOf_congr confined.bits
  have word : ∀ slot, area slot → r'.table.word slot = r.table.word slot := fun slot own =>
    confined.word slot (apart slot own)
  refine { u with holding, shape := ?_, memory := ?_, lower := u.lower.trans confined.clock, alone := ?_,
                  free := ?_, window := u.window.beside confined apart }
  · exact fun address => (confined.shape address).trans (u.shape address)
  · intro l own
    have own : area (r.table.slotOf l) := slotOf ▸ own
    exact (confined.words l (apart _ own)).trans (u.memory l own)
  · intro slot inside own
    change (r'.table.word slot).isFreeFor c.owner = true
    rw [word slot own]
    exact u.alone slot (size ▸ inside) own
  · intro slot stamp own free
    exact u.free slot stamp own ((word slot own).symm.trans free)

end

end Scope

end TransactionalMemory
