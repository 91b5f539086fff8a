import Mathlib.Data.List.Dedup
import Mathlib.Data.List.Induction
import Mathlib.Data.List.Perm.Basic
import TransactionalMemory.Proofs.RedoLog

/-! # Logs as maps

What a redo log is after any sequence of writes: its register and its chains are in order, and they
represent a map from locations to the values that were logged last, and from slots to the stamps that
their first writes came with.  Only two things are asked of the sequence (`Loggable`): a location always
comes under the same slot, and the first write under a slot carries a stamp.  Which stamps the later ones
carry, if any, and how many locations share a slot, is left open.

`log_keeps_last_writes` tells the whole log in terms of the sequence, and what its commit and its
rollback do to memory and to a table in which its slots are held, in whatever order the register goes
through its slots.
-/

namespace TransactionalMemory

/-- A write as a log is told of it, with the stamp that its slot carried if it was taken for it. -/
structure LoggedWrite where
  slot : Nat
  location : Location
  value : Value
  stamp? : Option Nat
  deriving DecidableEq, Repr

/-- The value that was written last to a location. -/
def lastValue? (writes : List LoggedWrite) (l : Location) : Option Value :=
  (writes.reverse.find? (·.location = l)).map (·.value)

/-- The stamp that the first write under a slot came with. -/
def firstStamp? (writes : List LoggedWrite) (slot : Nat) : Option Nat :=
  (writes.find? (·.slot = slot)).bind (·.stamp?)

/-- Writes that can be logged one after the other. -/
structure Loggable (writes : List LoggedWrite) : Prop where
  placed : ∀ a ∈ writes, ∀ b ∈ writes, a.location = b.location → a.slot = b.slot
  stamped : ∀ w ∈ writes, (firstStamp? writes w.slot).isSome

instance (writes : List LoggedWrite) : Decidable (Loggable writes) :=
  decidable_of_iff
    ((∀ a ∈ writes, ∀ b ∈ writes, a.location = b.location → a.slot = b.slot) ∧
      ∀ w ∈ writes, (firstStamp? writes w.slot).isSome)
    ⟨fun h => ⟨h.1, h.2⟩, fun h => ⟨h.placed, h.stamped⟩⟩

/-- Logs writes one after the other, up to the first that cannot be logged. -/
def RedoLog.appendAll (writes : List LoggedWrite) : Except Fault RedoLog :=
  writes.foldlM (fun log w => log.append w.slot w.location w.value w.stamp?) {}

/-! ## The sequence read from its end -/

theorem lastValue?_snoc (writes : List LoggedWrite) (w : LoggedWrite) (l : Location) :
    lastValue? (writes ++ [w]) l = if l = w.location then some w.value else lastValue? writes l := by
  by_cases same : w.location = l
  · simp [lastValue?, same]
  · simp [lastValue?, same, Ne.symm same]

theorem lastValue?_isSome_iff {writes : List LoggedWrite} {l : Location} :
    (lastValue? writes l).isSome ↔ l ∈ writes.map (·.location) := by
  simp [lastValue?, List.find?_isSome]

theorem firstStamp?_snoc (writes : List LoggedWrite) (w : LoggedWrite) (slot : Nat) :
    firstStamp? (writes ++ [w]) slot =
      if slot ∈ writes.map (·.slot) then firstStamp? writes slot
      else if slot = w.slot then w.stamp? else none := by
  unfold firstStamp?
  rw [List.find?_append]
  by_cases before : slot ∈ writes.map (·.slot)
  · obtain ⟨first, found⟩ : ∃ first, writes.find? (·.slot = slot) = some first := by
      rw [← Option.isSome_iff_exists, List.find?_isSome]
      simpa using before
    rw [if_pos before, found]
    rfl
  · have absent : writes.find? (·.slot = slot) = none := by
      simpa using before
    rw [if_neg before, absent]
    by_cases same : w.slot = slot
    · simp [same]
    · simp [same, Ne.symm same]

theorem firstStamp?_eq_none {writes : List LoggedWrite} {slot : Nat}
    (absent : slot ∉ writes.map (·.slot)) : firstStamp? writes slot = none := by
  have none : writes.find? (·.slot = slot) = none := by simpa using absent
  rw [firstStamp?, none, Option.bind_none]

namespace Loggable

variable {writes : List LoggedWrite} {w : LoggedWrite}

theorem isSome_iff (loggable : Loggable writes) {slot : Nat} :
    (firstStamp? writes slot).isSome ↔ slot ∈ writes.map (·.slot) := by
  constructor
  · intro stamped
    by_contra absent
    rw [firstStamp?_eq_none absent] at stamped
    cases stamped
  · intro member
    obtain ⟨w, memberW, rfl⟩ := List.mem_map.mp member
    exact loggable.stamped w memberW

theorem of_snoc (loggable : Loggable (writes ++ [w])) : Loggable writes where
  placed a memberA b memberB :=
    loggable.placed a (List.mem_append_left _ memberA) b (List.mem_append_left _ memberB)
  stamped a member := by
    have stamped := loggable.stamped a (List.mem_append_left _ member)
    rwa [firstStamp?_snoc, if_pos (List.mem_map_of_mem member)] at stamped

/-- The slots of the locations, as one function. -/
theorem exists_slotOf (loggable : Loggable writes) :
    ∃ slotOf : Location → Nat, ∀ w ∈ writes, w.slot = slotOf w.location := by
  refine ⟨fun l => ((writes.find? (·.location = l)).map (·.slot)).getD 0, ?_⟩
  intro w member
  obtain ⟨first, found⟩ : ∃ first, writes.find? (·.location = w.location) = some first := by
    rw [← Option.isSome_iff_exists, List.find?_isSome]
    exact ⟨w, member, by simp⟩
  have same : first.location = w.location := by simpa using List.find?_some found
  simp only [found, Option.map_some, Option.getD_some]
  exact loggable.placed w member first (List.mem_of_find?_eq_some found) same.symm

end Loggable

namespace RedoLog

/-! ## The log that the sequence leaves -/

/-- A log holds what a sequence of writes has made of it. -/
structure Keeps (log : RedoLog) (slotOf : Location → Nat) (writes : List LoggedWrite) : Prop where
  wellFormed : log.WellFormed slotOf
  value : ∀ l, log.value? (slotOf l) l = lastValue? writes l
  stamp : ∀ slot, log.stamp? slot = firstStamp? writes slot

variable {log : RedoLog} {slotOf : Location → Nat} {writes : List LoggedWrite}

theorem Keeps.append {w : LoggedWrite} (keeps : log.Keeps slotOf writes)
    (loggable : Loggable (writes ++ [w])) (placed : w.slot = slotOf w.location) :
    ∃ log', log.append w.slot w.location w.value w.stamp? = .ok log' ∧
      log'.Keeps slotOf (writes ++ [w]) := by
  have before := loggable.of_snoc
  -- If the log does not hold the slot yet, this is the first write under it, so it carries a stamp.
  have possible : log.stamp? w.slot = none → w.stamp?.isSome := by
    intro notHeld
    have absent : w.slot ∉ writes.map (·.slot) := by
      rw [← before.isSome_iff, ← keeps.stamp, notHeld]
      simp
    have stamped := loggable.stamped w (by simp)
    rwa [firstStamp?_snoc, if_neg absent, if_pos rfl] at stamped
  obtain ⟨log', appended⟩ := append_ok possible w.location w.value
  refine ⟨log', appended, ?_⟩
  rw [placed] at appended
  have told := keeps.wellFormed.append appended
  refine ⟨told.wellFormed, ?_, ?_⟩
  · intro l
    rw [told.value, lastValue?_snoc, keeps.value]
  · intro slot
    rw [told.stamps, firstStamp?_snoc, keeps.stamp, placed]
    -- The slot is held by the log exactly when an earlier write came under it.
    by_cases member : slot ∈ writes.map (·.slot)
    · have held := Option.isSome_iff_ne_none.mp (before.isSome_iff.mpr member)
      rw [if_pos member, if_neg fun both => held both.2]
    · have free := firstStamp?_eq_none member
      simp [member, free]

theorem keeps_appendAll (placed : ∀ w ∈ writes, w.slot = slotOf w.location) (loggable : Loggable writes) :
    ∃ log, appendAll writes = .ok log ∧ log.Keeps slotOf writes := by
  induction writes using List.reverseRecOn with
  | nil => exact ⟨{}, rfl, wellFormed_empty slotOf, fun _ => rfl, fun _ => rfl⟩
  | append_singleton writes w ih =>
    obtain ⟨log, ran, keeps⟩ :=
      ih (fun w' member => placed w' (List.mem_append_left _ member)) loggable.of_snoc
    obtain ⟨log', appended, keeps'⟩ := keeps.append loggable (placed w (by simp))
    refine ⟨log', ?_, keeps'⟩
    unfold appendAll at ran ⊢
    rw [List.foldlM_append, ran]
    simp [bind, Except.bind, pure, Except.pure, appended]

namespace Keeps

theorem location_mem_iff (keeps : log.Keeps slotOf writes) {l : Location} :
    l ∈ log.entries.map (·.location) ↔ l ∈ writes.map (·.location) := by
  rw [← lastValue?_isSome_iff, ← keeps.value, Option.isSome_iff_ne_none, Ne,
    value?_eq_none_iff keeps.wellFormed]
  simp

theorem slot_mem_iff (keeps : log.Keeps slotOf writes) (loggable : Loggable writes) {slot : Nat} :
    slot ∈ log.heads.map (·.slot) ↔ slot ∈ writes.map (·.slot) := by
  rw [← loggable.isSome_iff, ← keeps.stamp, Option.isSome_iff_ne_none, Ne, stamp?_eq_none_iff]
  simp

/-- No location is logged twice, so that the entries are as many as the locations. -/
theorem size_eq (keeps : log.Keeps slotOf writes) :
    log.size = (writes.map (·.location)).dedup.length := by
  have same : (log.entries.map (·.location)).Perm (writes.map (·.location)).dedup := by
    rw [List.perm_ext_iff_of_nodup keeps.wellFormed.distinct (List.nodup_dedup _)]
    intro l
    rw [List.mem_dedup, keeps.location_mem_iff]
  simpa [size] using same.length_eq

theorem heldSlots_eq (keeps : log.Keeps slotOf writes) (loggable : Loggable writes) :
    log.heldSlots = (writes.map (·.slot)).dedup.length := by
  have distinct : (log.heads.map (·.slot)).Nodup :=
    List.pairwise_map.mpr (keeps.wellFormed.chained.ascending.imp Nat.ne_of_lt)
  have same : (log.heads.map (·.slot)).Perm (writes.map (·.slot)).dedup := by
    rw [List.perm_ext_iff_of_nodup distinct (List.nodup_dedup _)]
    intro slot
    rw [List.mem_dedup, keeps.slot_mem_iff loggable]
  simpa [heldSlots] using same.length_eq

theorem owns_iff (keeps : log.Keeps slotOf writes) (loggable : Loggable writes) (slot : Nat) :
    log.owns slot ↔ slot ∈ writes.map (·.slot) := by
  rw [owns, keeps.stamp, loggable.isSome_iff]

/-- Under a slot that is not the one of a location the log has nothing for it. -/
theorem value?_eq_none (keeps : log.Keeps slotOf writes)
    (placed : ∀ w ∈ writes, w.slot = slotOf w.location) {slot : Nat} {l : Location}
    (unwritten : ∀ w ∈ writes, w.location = l → w.slot ≠ slot) : log.value? slot l = none := by
  rw [value?, Option.map_eq_none_iff, Option.eq_none_iff_forall_ne_some]
  intro k found
  obtain ⟨here, slots⟩ := (find?_eq_some_iff keeps.wellFormed).mp found
  have member : log.entry k ∈ log.entries := List.getElem_mem k.isLt
  obtain ⟨w, memberW, same⟩ := List.mem_map.mp (keeps.location_mem_iff.mp (List.mem_map_of_mem member))
  apply unwritten w memberW (same.trans here)
  rw [placed w memberW, same, ← keeps.wellFormed.placed _ member, slots]

theorem held_slots (keeps : log.Keeps slotOf writes) (loggable : Loggable writes) {t : LockTable}
    (held : ∀ w ∈ writes, w.slot < t.size ∧ ∃ owner, t.word w.slot = .held owner) (slot : Nat)
    (own : log.stamp? slot ≠ none) : slot < t.size ∧ ∃ owner, t.word slot = .held owner := by
  rw [keeps.stamp, ← Option.isSome_iff_ne_none, loggable.isSome_iff] at own
  obtain ⟨w, member, rfl⟩ := List.mem_map.mp own
  exact held w member

/-- A commit stores the last values, and frees the slots under its stamp in whatever order it meets them. -/
theorem commit (keeps : log.Keeps slotOf writes) (loggable : Loggable writes) {t : LockTable}
    (held : ∀ w ∈ writes, w.slot < t.size ∧ ∃ owner, t.word w.slot = .held owner) {stamp : Nat}
    (small : stamp < lockBit) {m : Memory} (exist : ∀ w ∈ writes, m.Has w.location) :
    ∃ t' m', log.commit stamp t m = (.ok (), {}, t', m') ∧ t'.bits = t.bits ∧ m.SameShape m' ∧
      (∀ slot, t'.word slot = if slot ∈ writes.map (·.slot) then .free stamp else t.word slot) ∧
      (∀ l, m'.words l = match lastValue? writes l with
        | some v => v.encode
        | none => m.words l) ∧
      ∀ given, given.Perm (log.heldUnder stamp) →
        ∃ t₂, RedoLog.release given t = (.ok (), t₂) ∧ t₂.bits = t'.bits ∧ t₂.word = t'.word := by
  have fields : ∀ e ∈ log.entries, m.Has e.location := by
    intro e member
    obtain ⟨w, memberW, same⟩ :=
      List.mem_map.mp (keeps.location_mem_iff.mp (List.mem_map_of_mem member))
    exact same ▸ exist w memberW
  have chained := keeps.wellFormed.chained
  have own := keeps.held_slots loggable held
  obtain ⟨m', stored, words, shape⟩ := store_of_has fields
  obtain ⟨t', released, back⟩ := chained.release_heldUnder own small
  refine ⟨t', m', ?_, back.bits, shape, ?_, ?_, ?_⟩
  · rw [RedoLog.commit, stored]
    simp only [released]
  · intro slot
    rw [back.word, keeps.stamp]
    by_cases member : slot ∈ writes.map (·.slot)
    · obtain ⟨first, found⟩ := Option.isSome_iff_exists.mp (loggable.isSome_iff.mpr member)
      rw [found, if_pos member]
    · rw [firstStamp?_eq_none member, if_neg member]
  · intro l
    have last := overlay_apply keeps.wellFormed m.words l
    rw [keeps.value] at last
    rw [words]
    exact last
  · intro given same
    exact release_any_order same (chained.nodup_heldUnder stamp) (releasable_heldUnder own small) released

theorem rollback (keeps : log.Keeps slotOf writes) (loggable : Loggable writes) {t : LockTable}
    (held : ∀ w ∈ writes, w.slot < t.size ∧ ∃ owner, t.word w.slot = .held owner)
    (small : ∀ w ∈ writes, ∀ stamp ∈ firstStamp? writes w.slot, stamp < lockBit) :
    ∃ t', log.rollback t = (.ok (), {}, t') ∧ t'.bits = t.bits ∧
      (∀ slot, t'.word slot = match firstStamp? writes slot with
        | some stamp => .free stamp
        | none => t.word slot) ∧
      ∀ given, given.Perm log.held →
        ∃ t₂, RedoLog.release given t = (.ok (), t₂) ∧ t₂.bits = t'.bits ∧ t₂.word = t'.word := by
  have stamps : ∀ slot stamp, log.stamp? slot = some stamp → stamp < lockBit := by
    intro slot stamp found
    rw [keeps.stamp] at found
    have member : slot ∈ writes.map (·.slot) := loggable.isSome_iff.mp (by rw [found]; rfl)
    obtain ⟨w, memberW, rfl⟩ := List.mem_map.mp member
    exact small w memberW stamp found
  have chained := keeps.wellFormed.chained
  have own := keeps.held_slots loggable held
  obtain ⟨t', released, back⟩ := chained.release_held own stamps
  refine ⟨t', ?_, back.bits, ?_, ?_⟩
  · rw [RedoLog.rollback, released]
  · intro slot
    rw [back.word, keeps.stamp]
    rfl
  · intro given same
    exact release_any_order same chained.nodup_held (chained.releasable_held own stamps) released

end Keeps

end RedoLog

/-- Any sequence of writes in which a location always comes under one slot, and the first write under a
    slot carries a stamp, can be logged, and the log holds the last value of each location and the first
    stamp of each slot, once each, on chains that are in order.

With its slots held in a table it can be committed, if the fields exist and the stamp is small enough:
each written field then has its last value, each of the slots is free with the new stamp, and nothing
else has changed.  Or it can be rolled back, if the old stamps are small enough, which gives each slot
the stamp that its first write came with and does not touch memory.  The order in which the slots are
given back makes no difference to either. -/
theorem log_keeps_last_writes (writes : List LoggedWrite) (loggable : Loggable writes) :
    ∃ log, RedoLog.appendAll writes = .ok log ∧ log.Chained ∧ (log.entries.map (·.location)).Nodup ∧
      (∀ w ∈ writes, log.value? w.slot w.location = lastValue? writes w.location) ∧
      (∀ slot l, (∀ w ∈ writes, w.location = l → w.slot ≠ slot) → log.value? slot l = none) ∧
      log.size = (writes.map (·.location)).dedup.length ∧
      log.heldSlots = (writes.map (·.slot)).dedup.length ∧
      (∀ slot, log.owns slot ↔ slot ∈ writes.map (·.slot)) ∧
      (∀ slot, log.stamp? slot = firstStamp? writes slot) ∧
      ∀ t : LockTable, (∀ w ∈ writes, w.slot < t.size ∧ ∃ owner, t.word w.slot = .held owner) →
        (∀ stamp < lockBit, ∀ m : Memory, (∀ w ∈ writes, m.Has w.location) →
          ∃ t' m', log.commit stamp t m = (.ok (), {}, t', m') ∧ t'.bits = t.bits ∧ m.SameShape m' ∧
            (∀ slot, t'.word slot = if slot ∈ writes.map (·.slot) then .free stamp else t.word slot) ∧
            (∀ l, m'.words l = match lastValue? writes l with
              | some v => v.encode
              | none => m.words l) ∧
            ∀ given, given.Perm (log.heldUnder stamp) →
              ∃ t₂, RedoLog.release given t = (.ok (), t₂) ∧ t₂.bits = t'.bits ∧ t₂.word = t'.word) ∧
        ((∀ w ∈ writes, ∀ stamp ∈ firstStamp? writes w.slot, stamp < lockBit) →
          ∃ t', log.rollback t = (.ok (), {}, t') ∧ t'.bits = t.bits ∧
            (∀ slot, t'.word slot = match firstStamp? writes slot with
              | some stamp => .free stamp
              | none => t.word slot) ∧
            ∀ given, given.Perm log.held →
              ∃ t₂, RedoLog.release given t = (.ok (), t₂) ∧ t₂.bits = t'.bits ∧ t₂.word = t'.word) := by
  obtain ⟨slotOf, placed⟩ := loggable.exists_slotOf
  obtain ⟨log, ran, keeps⟩ := RedoLog.keeps_appendAll placed loggable
  refine ⟨log, ran, keeps.wellFormed.chained, keeps.wellFormed.distinct, ?_, ?_, keeps.size_eq,
    keeps.heldSlots_eq loggable, keeps.owns_iff loggable, keeps.stamp, ?_⟩
  · intro w member
    rw [placed w member, keeps.value]
  · intro slot l unwritten
    exact keeps.value?_eq_none placed unwritten
  · intro t held
    exact ⟨fun stamp small m exist => keeps.commit loggable held small exist,
      keeps.rollback loggable held⟩

/-- Two locations share a slot, one of them is written again with a stamp that does not count, and a
    third location has a slot of its own, held by somebody else. -/
theorem log_keeps_last_writes_of_three :
    let writes : List LoggedWrite :=
      [⟨1, ⟨16, 0⟩, .u64 5, some 4⟩, ⟨1, ⟨16, 1⟩, .u64 6, none⟩, ⟨2, ⟨32, 0⟩, .u64 7, some 3⟩,
       ⟨1, ⟨16, 0⟩, .u64 8, some 9⟩]
    let t : LockTable :=
      { bits := 2, bits_pos := by decide, bits_lt := by decide,
        touched := ((Std.TreeMap.empty.insert 1 (.held ⟨1⟩)).insert 2 (.held ⟨2⟩)).insert 3 (.held ⟨1⟩) }
    let m : Memory := (Memory.insert {} 16 #[1, 2, 3]).insert 32 #[4]
    Loggable writes ∧ ∃ log, RedoLog.appendAll writes = .ok log ∧
      log.size = 3 ∧ log.heldSlots = 2 ∧ log.value? 1 ⟨16, 0⟩ = some (.u64 8) ∧
      log.value? 2 ⟨16, 0⟩ = none ∧ log.owns 3 = false ∧ log.stamp? 1 = some 4 ∧
      (∃ t' m', log.commit 11 t m = (.ok (), {}, t', m') ∧ m'.words ⟨16, 0⟩ = 8 ∧ m'.words ⟨16, 2⟩ = 3 ∧
        t'.word 1 = .free 11 ∧ t'.word 3 = .held ⟨1⟩) ∧
      ∃ t', log.rollback t = (.ok (), {}, t') ∧ t'.word 1 = .free 4 ∧ t'.word 3 = .held ⟨1⟩ := by
  intro writes t m
  have loggable : Loggable writes := by decide
  obtain ⟨log, ran, -, -, values, others, size, slots, owns, stamps, ended⟩ :=
    log_keeps_last_writes writes loggable
  have held : ∀ w ∈ writes, w.slot < t.size ∧ ∃ owner, t.word w.slot = .held owner := by
    have holders : ∀ w ∈ writes, w.slot < t.size ∧
        (t.word w.slot = .held ⟨1⟩ ∨ t.word w.slot = .held ⟨2⟩) := by decide +kernel
    exact fun w member => ⟨(holders w member).1, (holders w member).2.elim (⟨_, ·⟩) (⟨_, ·⟩)⟩
  obtain ⟨commits, rollsBack⟩ := ended t held
  refine ⟨loggable, log, ran, size, slots, values ⟨1, ⟨16, 0⟩, .u64 5, some 4⟩ (by decide),
    others 2 ⟨16, 0⟩ (by decide), ?_, stamps 1, ?_, ?_⟩
  · rw [Bool.eq_false_iff, Ne, owns]
    decide
  · obtain ⟨t', m', committed, -, -, words, contents, -⟩ := commits 11 (by decide) m (by decide +kernel)
    refine ⟨t', m', committed, contents ⟨16, 0⟩, (contents ⟨16, 2⟩).trans (by decide +kernel), ?_, ?_⟩
    · exact words 1
    · exact (words 3).trans (by decide +kernel)
  · obtain ⟨t', rolledBack, -, words, -⟩ := rollsBack (by decide)
    exact ⟨t', rolledBack, words 1, (words 3).trans (by decide +kernel)⟩

end TransactionalMemory
