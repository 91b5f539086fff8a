import TransactionalMemory.Log.Reads
import TransactionalMemory.Proofs.Words

/-! # Slots of the lock table

What each operation on the table does to the content of every slot.  Giving back a list of held
slots frees exactly these, each once: that is why the slots of a log have to be different from one
another, since a slot that is free already cannot be given back.
-/

namespace TransactionalMemory

namespace LockTable

@[simp] theorem bits_set (t : LockTable) (slot : Nat) (w : LockWord) : (t.set slot w).bits = t.bits :=
  rfl

theorem word_set (t : LockTable) (slot other : Nat) (w : LockWord) :
    (t.set slot w).word other = if slot = other then w else t.word other := by
  simp [word, set, Std.TreeMap.getD_insert]

@[simp] theorem word_set_self (t : LockTable) (slot : Nat) (w : LockWord) :
    (t.set slot w).word slot = w := by rw [word_set, if_pos rfl]

theorem slotOf_congr {t t' : LockTable} (h : t'.bits = t.bits) : t'.slotOf = t.slotOf := by
  funext l
  simp only [slotOf, h]

theorem size_congr {t t' : LockTable} (h : t'.bits = t.bits) : t'.size = t.size := by
  rw [size, h, size]

theorem load_eq_ok_iff {t : LockTable} {slot : Nat} {w : LockWord} :
    t.load slot = .ok w ↔ slot < t.size ∧ t.word slot = w := by
  simp only [load]
  by_cases inside : slot < t.size <;> simp [inside]

/-! ## Looking at a slot and taking it -/

theorem load_of_lt {t : LockTable} {slot : Nat} (inside : slot < t.size) :
    t.load slot = .ok (t.word slot) := if_pos inside

theorem check_of_lt {t : LockTable} {slot : Nat} (inside : slot < t.size) (owner : OwnerId) :
    t.check slot owner = match t.word slot with
      | .held holder => .ok (if holder = owner then .ok (.held holder) else .error ⟨slot, holder⟩)
      | .free stamp => .ok (.ok (.free stamp)) := by
  rw [check, load_of_lt inside]
  cases t.word slot with
  | free stamp => rfl
  | held holder => by_cases own : holder = owner <;> simp [bind, Except.bind, pure, Except.pure, own]

theorem acquire_of_lt {t : LockTable} {slot : Nat} (inside : slot < t.size) (owner : OwnerId) :
    t.acquire slot owner = match t.word slot with
      | .held holder => .ok (if holder = owner then .ok .reentrant else .error ⟨slot, holder⟩, t)
      | .free stamp => .ok (.ok (.fresh stamp), t.set slot (.held owner)) := by
  rw [acquire, load_of_lt inside]
  cases t.word slot with
  | free stamp => rfl
  | held holder => by_cases own : holder = owner <;> simp [bind, Except.bind, pure, Except.pure, own]

/-! ## Giving slots back -/

theorem release_of_held {t : LockTable} {slot stamp : Nat} {owner : OwnerId} (inside : slot < t.size)
    (held : t.word slot = .held owner) (small : stamp < lockBit) :
    t.release slot stamp = .ok (t.set slot (.free stamp)) := by
  have loaded : t.load slot = .ok (.held owner) := load_eq_ok_iff.mpr ⟨inside, held⟩
  rw [release, if_neg (Nat.not_le.mpr small), loaded]
  rfl

end LockTable

/-- What a table holds once slots are given back, each under its stamp. -/
structure RedoLog.Released (given : List HeldSlot) (t t' : LockTable) : Prop where
  bits : t'.bits = t.bits
  freed : ∀ h ∈ given, t'.word h.slot = .free h.stamp
  kept : ∀ slot, (∀ h ∈ given, h.slot ≠ slot) → t'.word slot = t.word slot

theorem RedoLog.release_of_held : ∀ {given : List HeldSlot} {t : LockTable}, (given.map (·.slot)).Nodup →
    (∀ h ∈ given, h.slot < t.size ∧ (∃ owner, t.word h.slot = .held owner) ∧ h.stamp < lockBit) →
    ∃ t', RedoLog.release given t = (.ok (), t') ∧ Released given t t'
  | [], t, _, _ => ⟨t, rfl, rfl, List.forall_mem_nil _, fun _ _ => rfl⟩
  | h :: given, t, distinct, ok => by
    rw [List.map_cons, List.nodup_cons] at distinct
    obtain ⟨new, distinct⟩ := distinct
    have apart : ∀ g ∈ given, h.slot ≠ g.slot := fun g member same => new (same ▸ List.mem_map_of_mem member)
    obtain ⟨inside, ⟨owner, isHeld⟩, small⟩ := ok h List.mem_cons_self
    have remaining : ∀ g ∈ given, g.slot < (t.set h.slot (.free h.stamp)).size ∧
        (∃ owner, (t.set h.slot (.free h.stamp)).word g.slot = .held owner) ∧ g.stamp < lockBit := by
      intro g member
      obtain ⟨gInside, ⟨holder, gHeld⟩, gSmall⟩ := ok g (List.mem_cons_of_mem _ member)
      refine ⟨gInside, ⟨holder, ?_⟩, gSmall⟩
      rw [LockTable.word_set, if_neg (apart g member), gHeld]
    obtain ⟨t', released, after⟩ := RedoLog.release_of_held distinct remaining
    refine ⟨t', ?_, after.bits, ?_, ?_⟩
    · rw [RedoLog.release, LockTable.release_of_held inside isHeld small]
      exact released
    · intro g member
      rcases List.mem_cons.mp member with rfl | member
      · rw [after.kept g.slot fun g' member' => (apart g' member').symm, LockTable.word_set_self]
      · exact after.freed g member
    · intro slot others
      rw [after.kept slot fun g member => others g (List.mem_cons_of_mem _ member), LockTable.word_set,
        if_neg (others h List.mem_cons_self)]

/-- The order in which held slots are given back makes no difference. -/
theorem RedoLog.release_any_order {given given' : List HeldSlot} {t t' : LockTable} (same : given'.Perm given)
    (distinct : (given.map (·.slot)).Nodup)
    (ok : ∀ h ∈ given, h.slot < t.size ∧ (∃ owner, t.word h.slot = .held owner) ∧ h.stamp < lockBit)
    (released : RedoLog.release given t = (.ok (), t')) :
    ∃ t₂, RedoLog.release given' t = (.ok (), t₂) ∧ t₂.bits = t'.bits ∧ t₂.word = t'.word := by
  obtain ⟨t₁, released₁, after₁⟩ := release_of_held distinct ok
  cases released₁.symm.trans released
  obtain ⟨t₂, released₂, after₂⟩ := release_of_held ((same.map _).nodup_iff.mpr distinct) fun h member =>
    ok h (same.mem_iff.mp member)
  refine ⟨t₂, released₂, after₂.bits.trans after₁.bits.symm, ?_⟩
  funext slot
  by_cases among : ∃ h ∈ given, h.slot = slot
  · obtain ⟨h, member, rfl⟩ := among
    rw [after₁.freed h member, after₂.freed h (same.mem_iff.mpr member)]
  · have others : ∀ h ∈ given, h.slot ≠ slot := fun h member here => among ⟨h, member, here⟩
    rw [after₁.kept slot others, after₂.kept slot fun h member => others h (same.mem_iff.mp member)]

/-! ## Reads that are current -/

/-- A read is current for an owner: its slot still carries the stamp that was seen, or the owner took
    the slot with that stamp. -/
def ReadEntry.Current (e : ReadEntry) (t : LockTable) (owner : OwnerId) (writes : RedoLog) : Prop :=
  t.word e.slot = .free e.observed ∨
    t.word e.slot = .held owner ∧ writes.stamp? e.slot = some e.observed

theorem ReadEntry.isCurrent_eq_true {e : ReadEntry} {t : LockTable} {owner : OwnerId}
    {writes : RedoLog} (h : e.isCurrent t owner writes = .ok true) : e.Current t owner writes := by
  unfold isCurrent at h
  cases loaded : t.load e.slot with
  | error f => rw [loaded] at h; cases h
  | ok w =>
    obtain ⟨_, word⟩ := LockTable.load_eq_ok_iff.mp loaded
    rw [loaded] at h
    cases w with
    | free stamp =>
      simp only [bind, Except.bind, pure, Except.pure, Except.ok.injEq, decide_eq_true_eq] at h
      exact Or.inl (by rw [word, h])
    | held holder =>
      by_cases own : holder = owner
      · simp only [bind, Except.bind, pure, Except.pure, own, ↓reduceIte, Except.ok.injEq,
          decide_eq_true_eq] at h
        exact Or.inr ⟨by rw [word, own], h⟩
      · simp [bind, Except.bind, pure, Except.pure, own] at h

theorem current_of_allCurrent {t : LockTable} {owner : OwnerId} {writes : RedoLog} :
    ∀ {entries : List ReadEntry}, allCurrent t owner writes entries = .ok true →
      ∀ e ∈ entries, e.Current t owner writes
  | [], _, _, member => by cases member
  | first :: entries, h, e, member => by
    unfold allCurrent at h
    cases checked : first.isCurrent t owner writes with
    | error f => rw [checked] at h; cases h
    | ok b =>
      rw [checked] at h
      cases b with
      | false => cases h
      | true =>
        cases member with
        | head => exact ReadEntry.isCurrent_eq_true checked
        | tail _ member => exact current_of_allCurrent h e member

theorem ReadEntry.isCurrent_ok {e : ReadEntry} {t : LockTable} (inside : e.slot < t.size)
    (owner : OwnerId) (writes : RedoLog) : ∃ b, e.isCurrent t owner writes = .ok b := by
  simp only [isCurrent]
  rw [LockTable.load_of_lt inside]
  cases t.word e.slot with
  | free stamp => exact ⟨_, rfl⟩
  | held holder =>
    by_cases own : holder = owner <;> simp [bind, Except.bind, pure, Except.pure, own]

theorem allCurrent_ok {t : LockTable} (owner : OwnerId) (writes : RedoLog) : ∀ {entries : List ReadEntry},
    (∀ e ∈ entries, e.slot < t.size) → ∃ b, allCurrent t owner writes entries = .ok b
  | [], _ => ⟨true, rfl⟩
  | e :: entries, inside => by
    obtain ⟨b, checked⟩ := e.isCurrent_ok (inside e List.mem_cons_self) owner writes
    obtain ⟨rest, checkedRest⟩ :=
      allCurrent_ok owner writes fun e' member => inside e' (List.mem_cons_of_mem _ member)
    simp only [allCurrent]
    rw [checked]
    cases b with
    | true => exact ⟨rest, checkedRest⟩
    | false => exact ⟨false, rfl⟩

end TransactionalMemory
