import Mathlib.Data.List.Nodup
import TransactionalMemory.Proofs.Locks

/-! # Well-formed redo logs

The register of a redo log and the chains that it leads to represent two maps, from locations to
values and from slots to stamps.  They do so as long as the log is `Chained`: the chain of a held slot
goes through the writes under this slot, through all of them and no others, and these share one stamp.
A log is well formed if moreover every logged write stands under the slot of its location and no
location is logged twice.

Appending keeps a log well formed, and what it does is told by the two maps, the value of each location
and the stamp of each slot.  A well-formed log whose slots are held in the table can always be rolled
back or committed: neither meets a fault, and both leave an empty log.
-/

namespace TransactionalMemory

namespace RedoLog

/-! ## Chains -/

/-- The chain from one position leads to another. -/
inductive Reaches (log : RedoLog) : Nat → Nat → Prop
  | here (i : Nat) : Reaches log i i
  | next {i j k : Nat} {e : WriteEntry} (found : log.entries[i]? = some e) (next : e.next = some j)
      (rest : Reaches log j k) : Reaches log i k

/-- The register leads to the chains of the held slots, once each, and the chains go through the writes under their
    slots.  The stamp of a slot is on all of its chain. -/
structure Chained (log : RedoLog) : Prop where
  ascending : log.heads.Pairwise (·.slot < ·.slot)
  headed : ∀ h ∈ log.heads, ∃ e, log.entries[h.first]? = some e ∧ e.slot = h.slot
  linked : ∀ (i : Nat) (e : WriteEntry) (j : Nat), log.entries[i]? = some e → e.next = some j →
    ∃ e' : WriteEntry, log.entries[j]? = some e' ∧ e'.slot = e.slot ∧ e'.taken = e.taken
  complete : ∀ (i : Nat) (e : WriteEntry), log.entries[i]? = some e →
    ∃ h ∈ log.heads, h.slot = e.slot ∧ log.Reaches h.first i

/-- A log of writes in which each location stands once, under its own slot, on the chain of the slot. -/
structure WellFormed (log : RedoLog) (slotOf : Location → Nat) : Prop where
  placed : ∀ e ∈ log.entries, e.slot = slotOf e.location
  distinct : (log.entries.map (·.location)).Nodup
  chained : log.Chained

theorem chained_empty : ({} : RedoLog).Chained where
  ascending := List.Pairwise.nil
  headed _ member := by cases member
  linked _ _ _ found := by cases found
  complete _ _ found := by cases found

theorem wellFormed_empty (slotOf : Location → Nat) : ({} : RedoLog).WellFormed slotOf where
  placed _ member := by cases member
  distinct := List.nodup_nil
  chained := chained_empty

section

variable {log : RedoLog} {slot : Nat}

theorem Reaches.entry {i k : Nat} (chained : log.Chained) (reaches : log.Reaches i k) {e : WriteEntry}
    (found : log.entries[i]? = some e) :
    ∃ e', log.entries[k]? = some e' ∧ e'.slot = e.slot ∧ e'.taken = e.taken := by
  induction reaches generalizing e with
  | here i => exact ⟨e, found, rfl, rfl⟩
  | next found' next rest ih =>
    cases found'.symm.trans found
    obtain ⟨e₁, found₁, slot₁, taken₁⟩ := chained.linked _ _ _ found next
    obtain ⟨e₂, found₂, slot₂, taken₂⟩ := ih found₁
    exact ⟨e₂, found₂, slot₂.trans slot₁, taken₂.trans taken₁⟩

/-! ## The register -/

theorem head?_eq_none_iff : log.head? slot = none ↔ ∀ h ∈ log.heads, h.slot ≠ slot := by
  unfold head?
  split
  · next none => simpa using none
  · next h some =>
    refine iff_of_false (Option.some_ne_none _) fun others => ?_
    exact others h (List.mem_of_find?_eq_some some) (by simpa using List.find?_some some)

theorem mem_heads_of_head? {first : Fin log.entries.length} (found : log.head? slot = some first) :
    ⟨slot, first⟩ ∈ log.heads := by
  unfold head? at found
  split at found
  · cases found
  · next h some =>
    have here : h.slot = slot := by simpa using List.find?_some some
    have member := List.mem_of_find?_eq_some some
    obtain rfl := Option.some_inj.mp found
    show (⟨slot, h.first⟩ : ChainHead) ∈ log.heads
    rwa [← here]

theorem Chained.head?_of_mem (chained : log.Chained) {h : ChainHead} (member : h ∈ log.heads) :
    log.head? h.slot = some ⟨h.first, log.inside h member⟩ := by
  cases found : log.head? h.slot with
  | none => exact absurd rfl (head?_eq_none_iff.mp found h member)
  | some first =>
    -- The slots ascend, so no two heads are of one slot.
    have slots : (log.heads.map (·.slot)).Nodup := List.pairwise_map.mpr (chained.ascending.imp Nat.ne_of_lt)
    have same := List.inj_on_of_nodup_map slots (mem_heads_of_head? found) member rfl
    rw [Option.some_inj, Fin.ext_iff]
    exact congrArg ChainHead.first same

theorem Chained.slot_of_head? (chained : log.Chained) {first : Fin log.entries.length}
    (found : log.head? slot = some first) : (log.entry first).slot = slot := by
  obtain ⟨e, here, same⟩ := chained.headed _ (mem_heads_of_head? found)
  rw [List.getElem?_eq_getElem first.isLt, Option.some_inj] at here
  exact (congrArg WriteEntry.slot here).trans same

/-- Every write under a slot is on the chain that the register has for the slot. -/
theorem Chained.head?_of_entry (chained : log.Chained) (i : Fin log.entries.length) :
    ∃ first, log.head? (log.entry i).slot = some first ∧ log.Reaches first i := by
  obtain ⟨h, member, same, reaches⟩ := chained.complete i _ (List.getElem?_eq_getElem i.isLt)
  exact ⟨_, same ▸ chained.head?_of_mem member, reaches⟩

/-! ## Walks along a chain -/

theorem walk_of_here {l : Location} {i : Fin log.entries.length} (here : (log.entry i).location = l) :
    log.walk l i = some i := by
  rw [walk, if_pos here]

theorem walk_eq_some {l : Location} {i k : Fin log.entries.length} (found : log.walk l i = some k) :
    log.Reaches i k ∧ (log.entry k).location = l := by
  induction i using walk.induct log l with
  | case1 i here =>
    rw [walk, if_pos here] at found
    cases found
    exact ⟨.here _, here⟩
  | case2 i elsewhere last =>
    rw [walk, if_neg elsewhere] at found
    split at found
    · cases found
    · next j next => cases last.symm.trans next
  | case3 i elsewhere j next ih =>
    rw [walk, if_neg elsewhere] at found
    split at found
    · cases found
    · next j' next' =>
      cases next.symm.trans next'
      obtain ⟨reaches, here⟩ := ih found
      exact ⟨.next (List.getElem?_eq_getElem i.isLt) next reaches, here⟩

theorem walk_of_reaches {l : Location} {i k : Nat} (reaches : log.Reaches i k) (inside : i < log.entries.length)
    (inside' : k < log.entries.length) (here : log.entries[k].location = l)
    (only : ∀ j (h : j < log.entries.length), log.entries[j].location = l → j = k) :
    log.walk l ⟨i, inside⟩ = some ⟨k, inside'⟩ := by
  induction reaches with
  | here k => exact walk_of_here here
  | @next i j k e found next rest ih =>
    rw [walk]
    split
    · next same => cases only i inside same; rfl
    · rw [List.getElem?_eq_getElem inside, Option.some_inj] at found
      have next : log.entries[i].next = some j := found ▸ next
      split
      · next last => cases next.symm.trans last
      · next j' next' =>
        cases next.symm.trans next'
        exact ih _ inside' here only

end

/-! ## The maps that a log represents -/

section

variable {log : RedoLog} {slotOf : Location → Nat}

theorem WellFormed.position_unique (wf : log.WellFormed slotOf) {i j : Nat} (hi : i < log.entries.length)
    (hj : j < log.entries.length) (same : log.entries[i].location = log.entries[j].location) : i = j := by
  have bound : ∀ {n}, n < log.entries.length → n < (log.entries.map (·.location)).length := by simp
  exact (@List.Nodup.getElem_inj_iff _ _ wf.distinct i (bound hi) j (bound hj)).mp (by simpa using same)

theorem find?_eq_some_iff (wf : log.WellFormed slotOf) {slot : Nat} {l : Location} {k : Fin log.entries.length} :
    log.find? slot l = some k ↔ (log.entry k).location = l ∧ (log.entry k).slot = slot := by
  constructor
  · intro found
    obtain ⟨first, head, walked⟩ := Option.bind_eq_some_iff.mp found
    obtain ⟨reaches, here⟩ := walk_eq_some walked
    obtain ⟨e, at', slots, -⟩ := reaches.entry wf.chained (List.getElem?_eq_getElem first.isLt)
    rw [List.getElem?_eq_getElem k.isLt, Option.some_inj] at at'
    exact ⟨here, (at' ▸ slots).trans (wf.chained.slot_of_head? head)⟩
  · rintro ⟨here, rfl⟩
    obtain ⟨first, head, reaches⟩ := wf.chained.head?_of_entry k
    rw [find?, head]
    exact walk_of_reaches reaches first.isLt k.isLt here fun j hj same =>
      wf.position_unique hj k.isLt (same.trans here.symm)

theorem value?_eq_some_iff (wf : log.WellFormed slotOf) {l : Location} {v : Value} :
    log.value? (slotOf l) l = some v ↔ ∃ e ∈ log.entries, e.location = l ∧ e.value = v := by
  constructor
  · intro logged
    obtain ⟨k, found, rfl⟩ := Option.map_eq_some_iff.mp logged
    exact ⟨_, List.getElem_mem k.isLt, ((find?_eq_some_iff wf).mp found).1, rfl⟩
  · rintro ⟨e, member, rfl, rfl⟩
    obtain ⟨i, inside, rfl⟩ := List.getElem_of_mem member
    have found : log.find? (slotOf log.entries[i].location) log.entries[i].location = some ⟨i, inside⟩ :=
      (find?_eq_some_iff wf).mpr ⟨rfl, wf.placed _ member⟩
    rw [value?, found]
    rfl

theorem value?_eq_none_iff (wf : log.WellFormed slotOf) {l : Location} :
    log.value? (slotOf l) l = none ↔ ∀ e ∈ log.entries, e.location ≠ l := by
  rw [Option.eq_none_iff_forall_ne_some]
  constructor
  · intro h e member same
    exact h e.value ((value?_eq_some_iff wf).mpr ⟨e, member, same, rfl⟩)
  · intro h v found
    obtain ⟨e, member, same, -⟩ := (value?_eq_some_iff wf).mp found
    exact h e member same

theorem Chained.stamp?_eq_some_iff (chained : log.Chained) {slot stamp : Nat} :
    log.stamp? slot = some stamp ↔ ∃ e ∈ log.entries, e.slot = slot ∧ e.taken = stamp := by
  constructor
  · intro held
    obtain ⟨first, head, rfl⟩ := Option.map_eq_some_iff.mp held
    exact ⟨_, List.getElem_mem first.isLt, chained.slot_of_head? head, rfl⟩
  · rintro ⟨e, member, rfl, rfl⟩
    obtain ⟨i, inside, rfl⟩ := List.getElem_of_mem member
    obtain ⟨first, head, reaches⟩ := chained.head?_of_entry ⟨i, inside⟩
    obtain ⟨e', found, -, taken⟩ := reaches.entry chained (List.getElem?_eq_getElem first.isLt)
    rw [List.getElem?_eq_getElem inside, Option.some_inj] at found
    have head : log.head? log.entries[i].slot = some first := head
    rw [stamp?, head, Option.map_some, found]
    exact congrArg some taken.symm

theorem stamp?_eq_none_iff {slot : Nat} : log.stamp? slot = none ↔ ∀ h ∈ log.heads, h.slot ≠ slot := by
  rw [stamp?, Option.map_eq_none_iff, head?_eq_none_iff]

/-- The slots of a well-formed log are those of its writes. -/
theorem WellFormed.owns_iff_exists (wf : log.WellFormed slotOf) {slot : Nat} :
    log.owns slot ↔ ∃ e ∈ log.entries, slotOf e.location = slot := by
  rw [owns, Option.isSome_iff_exists]
  constructor
  · rintro ⟨stamp, held⟩
    obtain ⟨e, member, rfl, -⟩ := wf.chained.stamp?_eq_some_iff.mp held
    exact ⟨e, member, (wf.placed e member).symm⟩
  · rintro ⟨e, member, rfl⟩
    exact ⟨e.taken, wf.chained.stamp?_eq_some_iff.mpr ⟨e, member, wf.placed e member, rfl⟩⟩

/-- A field holds what the log has for it, and else what it held before. -/
theorem overlay_apply (wf : log.WellFormed slotOf) (m : Words) (l : Location) :
    overlay log.entries m l = match log.value? (slotOf l) l with
      | some v => v.encode
      | none => m l := by
  cases found : log.value? (slotOf l) l with
  | none => exact overlay_other m ((value?_eq_none_iff wf).mp found)
  | some v =>
    obtain ⟨e, member, rfl, rfl⟩ := (value?_eq_some_iff wf).mp found
    exact overlay_of_mem m (List.pairwise_map.mp wf.distinct) member

theorem WellFormed.value?_of_not_held (wf : log.WellFormed slotOf) {l : Location}
    (h : log.stamp? (slotOf l) = none) : log.value? (slotOf l) l = none := by
  rw [value?_eq_none_iff wf]
  rintro e member rfl
  have held := wf.chained.stamp?_eq_some_iff.mpr ⟨e, member, wf.placed e member, rfl⟩
  cases h.symm.trans held

theorem eq_empty (h : log.isEmpty) : log = {} := by
  obtain ⟨entries, heads, descends, inside⟩ := log
  simp only [isEmpty, List.isEmpty_iff] at h
  subst h
  cases heads with
  | nil => rfl
  | cons h heads => exact absurd (inside h List.mem_cons_self) (Nat.not_lt_zero _)

theorem stamp?_of_isEmpty (nothing : log.isEmpty) (slot : Nat) : log.stamp? slot = none := by
  rw [eq_empty nothing]
  rfl

end

/-! ## Another value for a write -/

section

variable {log : RedoLog} {slotOf : Location → Nat}

theorem getElem?_revalue (log : RedoLog) (k : Nat) (v : Value) (i : Nat) : (log.revalue k v).entries[i]? =
    (log.entries[i]?).map fun e => if i = k then { e with value := v } else e := by
  rw [revalue, List.getElem?_modify]
  cases log.entries[i]? with
  | none => rfl
  | some e => by_cases same : k = i <;> simp [same, eq_comm]

/-- The entry at a position has kept everything but its value. -/
theorem entry_of_revalue {k i : Nat} {v : Value} {e : WriteEntry} (found : (log.revalue k v).entries[i]? = some e) :
    ∃ e₀, log.entries[i]? = some e₀ ∧ e.location = e₀.location ∧ e.slot = e₀.slot ∧ e.taken = e₀.taken ∧
      e.next = e₀.next ∧ e.value = if i = k then v else e₀.value := by
  rw [getElem?_revalue] at found
  obtain ⟨e₀, found₀, rfl⟩ := Option.map_eq_some_iff.mp found
  refine ⟨e₀, found₀, ?_⟩
  split <;> exact ⟨rfl, rfl, rfl, rfl, rfl⟩

theorem entry_revalue {k i : Nat} {e₀ : WriteEntry} (v : Value) (found : log.entries[i]? = some e₀) :
    ∃ e, (log.revalue k v).entries[i]? = some e ∧ e.location = e₀.location ∧ e.slot = e₀.slot ∧
      e.taken = e₀.taken ∧ e.next = e₀.next ∧ e.value = if i = k then v else e₀.value := by
  rw [getElem?_revalue, found]
  refine ⟨_, rfl, ?_⟩
  split <;> exact ⟨rfl, rfl, rfl, rfl, rfl⟩

theorem Reaches.revalue {i j : Nat} (reaches : log.Reaches i j) (k : Nat) (v : Value) :
    (log.revalue k v).Reaches i j := by
  induction reaches with
  | here i => exact .here i
  | next found next rest ih =>
    obtain ⟨e, found', -, -, -, next', -⟩ := entry_revalue v found
    exact .next found' (next'.trans next) ih

theorem Chained.revalue (chained : log.Chained) (k : Nat) (v : Value) : (log.revalue k v).Chained where
  ascending := chained.ascending
  headed h member := by
    obtain ⟨e₀, found₀, slot₀⟩ := chained.headed h member
    obtain ⟨e, found, -, slot, -⟩ := entry_revalue v found₀
    exact ⟨e, found, slot.trans slot₀⟩
  linked i e j found next := by
    obtain ⟨e₀, found₀, -, slot, taken, next₀, -⟩ := entry_of_revalue found
    obtain ⟨f₀, foundF₀, slotF, takenF⟩ := chained.linked i e₀ j found₀ (next₀.symm.trans next)
    obtain ⟨f, foundF, -, slot', taken', -⟩ := entry_revalue v foundF₀
    exact ⟨f, foundF, (slot'.trans slotF).trans slot.symm, (taken'.trans takenF).trans taken.symm⟩
  complete i e found := by
    obtain ⟨e₀, found₀, -, slot, -⟩ := entry_of_revalue found
    obtain ⟨h, member, same, reaches⟩ := chained.complete i e₀ found₀
    exact ⟨h, member, same.trans slot.symm, reaches.revalue k v⟩

theorem WellFormed.revalue (wf : log.WellFormed slotOf) (k : Nat) (v : Value) :
    (log.revalue k v).WellFormed slotOf where
  placed e member := by
    obtain ⟨i, found⟩ := List.mem_iff_getElem?.mp member
    obtain ⟨e₀, found₀, location, slot, -⟩ := entry_of_revalue found
    rw [slot, location]
    exact wf.placed e₀ (List.mem_of_getElem? found₀)
  distinct := by
    have same : (log.revalue k v).entries.map (·.location) = log.entries.map (·.location) := by
      refine List.ext_getElem? fun i => ?_
      rw [List.getElem?_map, List.getElem?_map, getElem?_revalue, Option.map_map]
      refine congrArg (Option.map · _) (funext fun e => ?_)
      dsimp only [Function.comp]
      split <;> rfl
    rw [same]
    exact wf.distinct
  chained := wf.chained.revalue k v

theorem WellFormed.value?_revalue (wf : log.WellFormed slotOf) (v : Value) {k : Fin log.entries.length}
    {l : Location} (here : (log.entry k).location = l) (l' : Location) :
    (log.revalue k v).value? (slotOf l') l' = if l' = l then some v else log.value? (slotOf l') l' := by
  apply Option.ext
  intro u
  rw [value?_eq_some_iff (wf.revalue k v)]
  by_cases same : l' = l
  · subst same
    rw [if_pos rfl, Option.some_inj]
    constructor
    · rintro ⟨e, member, location, rfl⟩
      obtain ⟨i, found⟩ := List.mem_iff_getElem?.mp member
      obtain ⟨e₀, found₀, location₀, -, -, -, value⟩ := entry_of_revalue found
      obtain ⟨inside, rfl⟩ := List.getElem?_eq_some_iff.mp found₀
      have position := wf.position_unique inside k.isLt ((location₀.symm.trans location).trans here.symm)
      rw [value, if_pos position]
    · rintro rfl
      obtain ⟨e, found, location, -, -, -, value⟩ :=
        entry_revalue (k := k) v (List.getElem?_eq_getElem k.isLt)
      exact ⟨e, List.mem_of_getElem? found, location.trans here, value.trans (if_pos rfl)⟩
  · -- The write to another location has kept its value.
    have elsewhere : ∀ {i : Nat} {e₀ : WriteEntry}, log.entries[i]? = some e₀ → e₀.location = l' → i ≠ k := by
      rintro i e₀ found location rfl
      rw [List.getElem?_eq_getElem k.isLt, Option.some_inj] at found
      exact same (location.symm.trans (found ▸ here))
    rw [if_neg same, value?_eq_some_iff wf]
    constructor
    · rintro ⟨e, member, location, rfl⟩
      obtain ⟨i, found⟩ := List.mem_iff_getElem?.mp member
      obtain ⟨e₀, found₀, location₀, -, -, -, value⟩ := entry_of_revalue found
      have location := location₀.symm.trans location
      exact ⟨e₀, List.mem_of_getElem? found₀, location, by rw [value, if_neg (elsewhere found₀ location)]⟩
    · rintro ⟨e₀, member, location, rfl⟩
      obtain ⟨i, found₀⟩ := List.mem_iff_getElem?.mp member
      obtain ⟨e, found, location', -, -, -, value⟩ := entry_revalue (k := k) v found₀
      exact ⟨e, List.mem_of_getElem? found, location'.trans location,
        by rw [value, if_neg (elsewhere found₀ location)]⟩

theorem Chained.stamp?_revalue (chained : log.Chained) (k : Nat) (v : Value) (slot : Nat) :
    (log.revalue k v).stamp? slot = log.stamp? slot := by
  apply Option.ext
  intro stamp
  rw [(chained.revalue k v).stamp?_eq_some_iff, chained.stamp?_eq_some_iff]
  constructor
  · rintro ⟨e, member, rfl, rfl⟩
    obtain ⟨i, found⟩ := List.mem_iff_getElem?.mp member
    obtain ⟨e₀, found₀, -, slot, taken, -⟩ := entry_of_revalue found
    exact ⟨e₀, List.mem_of_getElem? found₀, slot.symm, taken.symm⟩
  · rintro ⟨e₀, member, rfl, rfl⟩
    obtain ⟨i, found₀⟩ := List.mem_iff_getElem?.mp member
    obtain ⟨e, found, -, slot, taken, -⟩ := entry_revalue (k := k) v found₀
    exact ⟨e, List.mem_of_getElem? found, slot, taken⟩

end

/-! ## A new write -/

section

variable {log : RedoLog} {slotOf : Location → Nat} {slot first : Nat}

theorem setHead_ascending : ∀ {heads : List ChainHead}, heads.Pairwise (·.slot < ·.slot) →
    (setHead slot first heads).Pairwise (·.slot < ·.slot)
  | [], _ => List.pairwise_singleton ..
  | g :: heads, ascending => by
    obtain ⟨least, rest⟩ := List.pairwise_cons.mp ascending
    unfold setHead
    split
    · next before =>
      refine List.pairwise_cons.mpr ⟨fun f member => ?_, ascending⟩
      rcases List.mem_cons.mp member with rfl | member
      · exact before
      · exact Nat.lt_trans before (least f member)
    · next notBefore =>
      split
      · next same => exact List.pairwise_cons.mpr ⟨fun f member => same ▸ least f member, rest⟩
      · next differs =>
        refine List.pairwise_cons.mpr ⟨fun f member => ?_, setHead_ascending rest⟩
        rcases mem_setHead member with rfl | member
        · exact Nat.lt_of_le_of_ne (Nat.le_of_not_lt notBefore) (Ne.symm differs)
        · exact least f member

theorem mem_setHead_iff {g : ChainHead} : ∀ {heads : List ChainHead}, heads.Pairwise (·.slot < ·.slot) →
    (g ∈ setHead slot first heads ↔ g = ⟨slot, first⟩ ∨ g ∈ heads ∧ g.slot ≠ slot)
  | [], _ => by simp [setHead]
  | h :: heads, ascending => by
    obtain ⟨least, rest⟩ := List.pairwise_cons.mp ascending
    -- Behind a head that is not before the slot, no head is of the slot.
    have others : slot ≤ h.slot → ∀ f ∈ heads, f.slot ≠ slot := fun le f member same =>
      absurd (least f member) (Nat.not_lt.mpr (same ▸ le))
    unfold setHead
    split
    · next before =>
      rw [List.mem_cons, List.mem_cons]
      refine or_congr_right ⟨fun member => ⟨member, ?_⟩, And.left⟩
      rcases member with rfl | member
      · exact (Nat.ne_of_lt before).symm
      · exact others (Nat.le_of_lt before) g member
    · split
      · next same =>
        rw [List.mem_cons, List.mem_cons]
        refine or_congr_right ⟨fun member => ⟨Or.inr member, others (Nat.le_of_eq same) g member⟩, ?_⟩
        rintro ⟨rfl | member, differs⟩
        · exact absurd same.symm differs
        · exact member
      · next differs =>
        rw [List.mem_cons, List.mem_cons, mem_setHead_iff rest]
        constructor
        · rintro (rfl | new | ⟨member, other⟩)
          · exact Or.inr ⟨Or.inl rfl, Ne.symm differs⟩
          · exact Or.inl new
          · exact Or.inr ⟨Or.inr member, other⟩
        · rintro (new | ⟨rfl | member, other⟩)
          · exact Or.inr (Or.inl new)
          · exact Or.inl rfl
          · exact Or.inr (Or.inr ⟨member, other⟩)

variable {e : WriteEntry} {back : ∀ j ∈ e.next, j < log.entries.length}

theorem getElem?_push_of_lt {i : Nat} (old : i < log.entries.length) :
    (log.push e back).entries[i]? = log.entries[i]? := List.getElem?_append_left old

theorem getElem?_push_last : (log.push e back).entries[log.entries.length]? = some e := List.getElem?_concat_length

theorem entry_of_push {i : Nat} {f : WriteEntry} (found : (log.push e back).entries[i]? = some f) :
    log.entries[i]? = some f ∨ i = log.entries.length ∧ f = e := by
  rcases Nat.lt_or_ge i log.entries.length with old | new
  · exact Or.inl ((getElem?_push_of_lt old).symm.trans found)
  · obtain ⟨inside, -⟩ := List.getElem?_eq_some_iff.mp found
    have inside : i < (log.entries ++ [e]).length := inside
    rw [List.length_append, List.length_singleton] at inside
    obtain rfl : i = log.entries.length := by omega
    exact Or.inr ⟨rfl, Option.some_inj.mp (found.symm.trans getElem?_push_last)⟩

theorem entry_push {i : Nat} {f : WriteEntry} (found : log.entries[i]? = some f) :
    (log.push e back).entries[i]? = some f :=
  (getElem?_push_of_lt (List.getElem?_eq_some_iff.mp found).1).trans found

theorem Reaches.push {i j : Nat} (reaches : log.Reaches i j) : (log.push e back).Reaches i j := by
  induction reaches with
  | here i => exact .here i
  | next found next rest ih => exact .next (entry_push found) next ih

/-- A write that goes on the chain of its slot, with the stamp of the chain, or begins one. -/
def Extends (log : RedoLog) (e : WriteEntry) : Prop :=
  e.next = (log.head? e.slot).map (·.val) ∧ ∀ stamp, log.stamp? e.slot = some stamp → e.taken = stamp

theorem Chained.push (chained : log.Chained) (extends' : log.Extends e) : (log.push e back).Chained where
  ascending := setHead_ascending chained.ascending
  headed h member := by
    rcases mem_setHead member with rfl | member
    · exact ⟨e, getElem?_push_last, rfl⟩
    · obtain ⟨f, found, slot⟩ := chained.headed h member
      exact ⟨f, entry_push found, slot⟩
  linked i f j found next := by
    rcases entry_of_push found with found | ⟨rfl, rfl⟩
    · obtain ⟨f', found', same⟩ := chained.linked i f j found next
      exact ⟨f', entry_push found', same⟩
    · rw [extends'.1, Option.map_eq_some_iff] at next
      obtain ⟨first, head, rfl⟩ := next
      have stamp : log.stamp? f.slot = some (log.entry first).taken := by rw [stamp?, head]; rfl
      exact ⟨_, entry_push (List.getElem?_eq_getElem first.isLt), chained.slot_of_head? head,
        (extends'.2 _ stamp).symm⟩
  complete i f found := by
    have news : ∀ g, g ∈ (log.push e back).heads ↔
        g = ⟨e.slot, log.entries.length⟩ ∨ g ∈ log.heads ∧ g.slot ≠ e.slot :=
      fun g => mem_setHead_iff chained.ascending
    rcases entry_of_push found with found | ⟨rfl, rfl⟩
    · obtain ⟨h, member, same, reaches⟩ := chained.complete i f found
      by_cases here : h.slot = e.slot
      · -- The old chain goes on behind the new head.
        have next : e.next = some h.first := by
          rw [extends'.1, ← here, chained.head?_of_mem member]
          rfl
        exact ⟨_, (news _).mpr (Or.inl rfl), here.symm.trans same, .next getElem?_push_last next reaches.push⟩
      · exact ⟨h, (news h).mpr (Or.inr ⟨member, here⟩), same, reaches.push⟩
    · exact ⟨_, (news _).mpr (Or.inl rfl), rfl, .here _⟩

theorem WellFormed.push (wf : log.WellFormed slotOf) (extends' : log.Extends e)
    (placed : e.slot = slotOf e.location) (new : ∀ f ∈ log.entries, f.location ≠ e.location) :
    (log.push e back).WellFormed slotOf where
  placed f member := by
    rcases List.mem_append.mp member with member | member
    · exact wf.placed f member
    · rw [List.mem_singleton.mp member, placed]
  distinct := by
    show ((log.entries ++ [e]).map (·.location)).Nodup
    rw [List.map_append, List.nodup_append]
    refine ⟨wf.distinct, List.nodup_singleton _, ?_⟩
    intro a memberA b memberB same
    obtain ⟨f, member, rfl⟩ := List.mem_map.mp memberA
    rw [List.map_singleton, List.mem_singleton] at memberB
    exact new f member (same.trans memberB)
  chained := wf.chained.push extends'

theorem WellFormed.value?_push (wf : log.WellFormed slotOf) (extends' : log.Extends e)
    (placed : e.slot = slotOf e.location) (new : ∀ f ∈ log.entries, f.location ≠ e.location) (l : Location) :
    (log.push e back).value? (slotOf l) l = if l = e.location then some e.value else log.value? (slotOf l) l := by
  apply Option.ext
  intro u
  rw [value?_eq_some_iff (wf.push extends' placed new)]
  show (∃ f ∈ log.entries ++ [e], _) ↔ _
  split
  · next same =>
    subst same
    rw [Option.some_inj]
    constructor
    · rintro ⟨f, member, location, rfl⟩
      rcases List.mem_append.mp member with member | member
      · exact absurd location (new f member)
      · rw [List.mem_singleton.mp member]
    · rintro rfl
      exact ⟨e, List.mem_append_right _ (List.mem_singleton_self _), rfl, rfl⟩
  · next differs =>
    rw [value?_eq_some_iff wf]
    constructor
    · rintro ⟨f, member, location, value⟩
      rcases List.mem_append.mp member with member | member
      · exact ⟨f, member, location, value⟩
      · exact absurd (List.mem_singleton.mp member ▸ location.symm) differs
    · rintro ⟨f, member, location, value⟩
      exact ⟨f, List.mem_append_left _ member, location, value⟩

theorem Chained.stamp?_push (chained : log.Chained) (extends' : log.Extends e) (slot : Nat) :
    (log.push e back).stamp? slot =
      if slot = e.slot ∧ log.stamp? slot = none then some e.taken else log.stamp? slot := by
  apply Option.ext
  intro stamp
  rw [(chained.push extends').stamp?_eq_some_iff]
  show (∃ f ∈ log.entries ++ [e], _) ↔ _
  have split : (∃ f ∈ log.entries ++ [e], f.slot = slot ∧ f.taken = stamp) ↔
      log.stamp? slot = some stamp ∨ e.slot = slot ∧ e.taken = stamp := by
    rw [chained.stamp?_eq_some_iff]
    simp [or_and_right, exists_or]
  rw [split]
  by_cases here : slot = e.slot
  · subst here
    cases held : log.stamp? e.slot with
    | none => simp
    | some stamp' => simp [extends'.2 stamp' held]
  · simp [here, Ne.symm here]

end

/-! ## Appending -/

/-- What appending does to a well-formed log, told by the maps that it represents. -/
structure Appended (log log' : RedoLog) (slotOf : Location → Nat) (l : Location) (v : Value)
    (stamp : Option Nat) : Prop where
  wellFormed : log'.WellFormed slotOf
  value : ∀ k, log'.value? (slotOf k) k = if k = l then some v else log.value? (slotOf k) k
  stamps : ∀ slot, log'.stamp? slot =
    if slot = slotOf l ∧ log.stamp? slot = none then stamp else log.stamp? slot

section

variable {log log' : RedoLog} {slotOf : Location → Nat} {l : Location} {v : Value}

theorem WellFormed.append (wf : log.WellFormed slotOf) {stamp : Option Nat}
    (h : log.append (slotOf l) l v stamp = .ok log') : Appended log log' slotOf l v stamp := by
  have unlogged : log.find? (slotOf l) l = none → ∀ f ∈ log.entries, f.location ≠ l := fun none =>
    (value?_eq_none_iff wf).mp (by rw [value?, none]; rfl)
  unfold RedoLog.append at h
  split at h
  · next k found =>
    cases h
    obtain ⟨here, slot⟩ := (find?_eq_some_iff wf).mp found
    refine ⟨wf.revalue k v, wf.value?_revalue v here, fun slot' => ?_⟩
    rw [wf.chained.stamp?_revalue, if_neg]
    rintro ⟨rfl, unheld⟩
    have held := wf.chained.stamp?_eq_some_iff.mpr ⟨_, List.getElem_mem k.isLt, slot, rfl⟩
    cases unheld.symm.trans held
  · next first none head =>
    cases h
    have held : log.stamp? (slotOf l) = some (log.entry first).taken := by rw [stamp?, head]; rfl
    have extends' : log.Extends ⟨l, slotOf l, v, (log.entry first).taken, some first⟩ :=
      ⟨by simp [head], fun stamp same => Option.some_inj.mp (held.symm.trans same)⟩
    refine ⟨wf.push extends' rfl (unlogged none), wf.value?_push extends' rfl (unlogged none), fun slot' => ?_⟩
    rw [wf.chained.stamp?_push extends']
    by_cases here : slot' = slotOf l
    · subst here
      simp [held]
    · simp [here]
  · next stamp none head =>
    cases h
    have unheld : log.stamp? (slotOf l) = Option.none := by rw [stamp?, head]; rfl
    have extends' : log.Extends ⟨l, slotOf l, v, stamp, Option.none⟩ :=
      ⟨by simp [head], fun stamp same => by cases unheld.symm.trans same⟩
    exact ⟨wf.push extends' rfl (unlogged none), wf.value?_push extends' rfl (unlogged none),
      wf.chained.stamp?_push extends'⟩
  · cases h

/-- A write can be logged if its slot is in the register or it comes with a stamp. -/
theorem append_ok {slot : Nat} {stamp : Option Nat} (possible : log.stamp? slot = none → stamp.isSome)
    (l : Location) (v : Value) : ∃ log', log.append slot l v stamp = .ok log' := by
  unfold RedoLog.append
  split
  · exact ⟨_, rfl⟩
  · exact ⟨_, rfl⟩
  · exact ⟨_, rfl⟩
  · next head =>
    cases possible (by rw [stamp?, head]; rfl)

theorem append_some (log : RedoLog) (slot : Nat) (l : Location) (v : Value) (stamp : Nat) :
    ∃ log', log.append slot l v (some stamp) = .ok log' := append_ok (fun _ => rfl) l v

theorem append_of_owns (log : RedoLog) {slot : Nat} (owns : log.owns slot = true) (l : Location) (v : Value) :
    ∃ log', log.append slot l v none = .ok log' :=
  append_ok (fun unheld => by rw [RedoLog.owns, unheld] at owns; exact owns) l v

theorem overlay_append {stamp : Option Nat} (wf : log.WellFormed slotOf)
    (h : Appended log log' slotOf l v stamp) (m : Words) :
    overlay log'.entries m = (overlay log.entries m).put l v.encode := by
  funext k
  rw [overlay_apply h.wellFormed, h.value k]
  by_cases same : k = l
  · subst same
    rw [if_pos rfl, Words.put_self]
  · rw [if_neg same, Words.put_other same, overlay_apply wf]

end

/-! ## Giving the slots back -/

/-- The table after the slots of a log were given back, each under what `stampOf` makes of the stamp
    that the slot was taken with. -/
structure GivenBack (log : RedoLog) (stampOf : Nat → Nat) (t t' : LockTable) : Prop where
  bits : t'.bits = t.bits
  word : ∀ slot, t'.word slot = match log.stamp? slot with
    | some stamp => .free (stampOf stamp)
    | none => t.word slot

theorem GivenBack.word_of_unheld {log : RedoLog} {stampOf : Nat → Nat} {t t' : LockTable}
    (given : GivenBack log stampOf t t') {slot : Nat} (unheld : log.stamp? slot = none) :
    t'.word slot = t.word slot := by
  rw [given.word slot, unheld]

section

variable {log : RedoLog} {t : LockTable} {slotOf : Location → Nat}

theorem Chained.mem_held_iff (chained : log.Chained) {h : HeldSlot} :
    h ∈ log.held ↔ log.stamp? h.slot = some h.stamp := by
  rw [held, List.mem_pmap]
  constructor
  · rintro ⟨g, member, rfl⟩
    obtain ⟨e, found, same⟩ := chained.headed g member
    obtain ⟨inside, rfl⟩ := List.getElem?_eq_some_iff.mp found
    have slot : (log.entry ⟨g.first, inside⟩).slot = g.slot := same
    dsimp only
    rw [stamp?, slot, chained.head?_of_mem member]
    rfl
  · intro stamp
    obtain ⟨first, head, same⟩ := Option.map_eq_some_iff.mp stamp
    refine ⟨_, mem_heads_of_head? head, ?_⟩
    have slot := chained.slot_of_head? head
    obtain ⟨slot', stamp'⟩ := h
    exact HeldSlot.mk.injEq .. ▸ ⟨slot, same⟩

theorem mem_heldUnder_iff {stamp : Nat} {h : HeldSlot} :
    h ∈ log.heldUnder stamp ↔ h.stamp = stamp ∧ log.stamp? h.slot ≠ none := by
  rw [heldUnder, List.mem_map, Ne, stamp?_eq_none_iff]
  push Not
  constructor
  · rintro ⟨g, member, rfl⟩
    exact ⟨rfl, g, member, rfl⟩
  · rintro ⟨rfl, g, member, same⟩
    exact ⟨g, member, by rw [same]⟩

/-- The register names each slot once, whether by the key or by the entry that heads the chain. -/
theorem Chained.nodup_held (chained : log.Chained) : (log.held.map (·.slot)).Nodup := by
  have same : log.held.map (·.slot) = log.heads.map (·.slot) := by
    rw [held, List.map_pmap]
    refine (List.pmap_congr_left log.heads fun g member inside _ => ?_).trans
      (List.pmap_eq_map (f := ChainHead.slot) log.inside)
    obtain ⟨e, found, slot⟩ := chained.headed g member
    obtain ⟨_, rfl⟩ := List.getElem?_eq_some_iff.mp found
    exact slot
  rw [same]
  exact List.pairwise_map.mpr (chained.ascending.imp Nat.ne_of_lt)

theorem Chained.nodup_heldUnder (chained : log.Chained) (stamp : Nat) :
    ((log.heldUnder stamp).map (·.slot)).Nodup := by
  rw [heldUnder, List.map_map]
  exact List.pairwise_map.mpr (chained.ascending.imp Nat.ne_of_lt)

theorem Chained.releasable_held (chained : log.Chained)
    (held : ∀ slot, log.stamp? slot ≠ none → slot < t.size ∧ ∃ owner, t.word slot = .held owner)
    (small : ∀ slot stamp, log.stamp? slot = some stamp → stamp < lockBit) :
    ∀ h ∈ log.held, h.slot < t.size ∧ (∃ owner, t.word h.slot = .held owner) ∧ h.stamp < lockBit := by
  intro h member
  have stamp := chained.mem_held_iff.mp member
  obtain ⟨inside, owner⟩ := held h.slot (by rw [stamp]; exact Option.some_ne_none _)
  exact ⟨inside, owner, small _ _ stamp⟩

theorem releasable_heldUnder
    (held : ∀ slot, log.stamp? slot ≠ none → slot < t.size ∧ ∃ owner, t.word slot = .held owner)
    {stamp : Nat} (small : stamp < lockBit) :
    ∀ h ∈ log.heldUnder stamp, h.slot < t.size ∧ (∃ owner, t.word h.slot = .held owner) ∧ h.stamp < lockBit := by
  intro h member
  obtain ⟨rfl, own⟩ := mem_heldUnder_iff.mp member
  exact ⟨(held h.slot own).1, (held h.slot own).2, small⟩

/-- Slots that exist and are held, no matter by whom, can be given back under their old stamps. -/
theorem Chained.release_held (chained : log.Chained)
    (held : ∀ slot, log.stamp? slot ≠ none → slot < t.size ∧ ∃ owner, t.word slot = .held owner)
    (small : ∀ slot stamp, log.stamp? slot = some stamp → stamp < lockBit) :
    ∃ t', RedoLog.release log.held t = (.ok (), t') ∧ GivenBack log id t t' := by
  obtain ⟨t', released, after⟩ := release_of_held chained.nodup_held (chained.releasable_held held small)
  refine ⟨t', released, after.bits, fun slot => ?_⟩
  cases own : log.stamp? slot with
  | none =>
    refine after.kept slot fun h member same => ?_
    cases own.symm.trans (same ▸ chained.mem_held_iff.mp member)
  | some stamp => exact after.freed ⟨slot, stamp⟩ (chained.mem_held_iff.mpr own)

/-- Slots that exist and are held, no matter by whom, can be given back under a new stamp. -/
theorem Chained.release_heldUnder (chained : log.Chained)
    (held : ∀ slot, log.stamp? slot ≠ none → slot < t.size ∧ ∃ owner, t.word slot = .held owner)
    {stamp : Nat} (small : stamp < lockBit) :
    ∃ t', RedoLog.release (log.heldUnder stamp) t = (.ok (), t') ∧ GivenBack log (fun _ => stamp) t t' := by
  obtain ⟨t', released, after⟩ :=
    release_of_held (chained.nodup_heldUnder stamp) (releasable_heldUnder held small)
  refine ⟨t', released, after.bits, fun slot => ?_⟩
  cases own : log.stamp? slot with
  | none => exact after.kept slot fun h member same => (mem_heldUnder_iff.mp member).2 (same ▸ own)
  | some old =>
    exact after.freed ⟨slot, stamp⟩ (mem_heldUnder_iff.mpr ⟨rfl, by rw [own]; exact Option.some_ne_none _⟩)

theorem Chained.rollback_held (chained : log.Chained)
    (held : ∀ slot, log.stamp? slot ≠ none → slot < t.size ∧ ∃ owner, t.word slot = .held owner)
    (small : ∀ slot stamp, log.stamp? slot = some stamp → stamp < lockBit) :
    ∃ t', log.rollback t = (.ok (), {}, t') ∧ GivenBack log id t t' := by
  obtain ⟨t', released, back⟩ := chained.release_held held small
  refine ⟨t', ?_, back⟩
  rw [RedoLog.rollback, released]

/-- A log whose slots are held and whose fields exist is committed: memory takes its writes, and
    every slot carries the new stamp. -/
theorem Chained.commit_held (chained : log.Chained)
    (held : ∀ slot, log.stamp? slot ≠ none → slot < t.size ∧ ∃ owner, t.word slot = .held owner)
    {stamp : Nat} (small : stamp < lockBit) {m : Memory} (exist : ∀ e ∈ log.entries, m.Has e.location) :
    ∃ t' m', log.commit stamp t m = (.ok (), {}, t', m') ∧ GivenBack log (fun _ => stamp) t t' ∧
      m'.words = overlay log.entries m.words ∧ m.SameShape m' := by
  obtain ⟨m', stored, words, shape⟩ := store_of_has exist
  obtain ⟨t', released, back⟩ := chained.release_heldUnder held small
  refine ⟨t', m', ?_, back, words, shape⟩
  rw [RedoLog.commit, stored]
  simp only [released]

end

/-! ### In the table that placed the writes -/

section

variable {log : RedoLog} {t : LockTable} {owner : OwnerId}

theorem WellFormed.held_slots (wf : log.WellFormed t.slotOf)
    (held : ∀ slot stamp, log.stamp? slot = some stamp → t.word slot = .held owner) (slot : Nat)
    (own : log.stamp? slot ≠ none) : slot < t.size ∧ ∃ owner, t.word slot = .held owner := by
  obtain ⟨stamp, own⟩ := Option.ne_none_iff_exists'.mp own
  obtain ⟨e, member, rfl, -⟩ := wf.chained.stamp?_eq_some_iff.mp own
  rw [wf.placed e member] at own ⊢
  exact ⟨t.slotOf_lt_size e.location, owner, held _ _ own⟩

theorem WellFormed.release (wf : log.WellFormed t.slotOf)
    (held : ∀ slot stamp, log.stamp? slot = some stamp → t.word slot = .held owner)
    {stamp : Nat} (small : stamp < lockBit) :
    ∃ t', RedoLog.release (log.heldUnder stamp) t = (.ok (), t') ∧ GivenBack log (fun _ => stamp) t t' :=
  wf.chained.release_heldUnder (wf.held_slots held) small

theorem WellFormed.rollback (wf : log.WellFormed t.slotOf)
    (held : ∀ slot stamp, log.stamp? slot = some stamp → t.word slot = .held owner)
    (small : ∀ slot stamp, log.stamp? slot = some stamp → stamp < lockBit) :
    ∃ t', log.rollback t = (.ok (), {}, t') ∧ GivenBack log id t t' :=
  wf.chained.rollback_held (wf.held_slots held) small

theorem WellFormed.commit (wf : log.WellFormed t.slotOf)
    (held : ∀ slot stamp, log.stamp? slot = some stamp → t.word slot = .held owner)
    {stamp : Nat} (small : stamp < lockBit) {m : Memory} (exist : ∀ e ∈ log.entries, m.Has e.location) :
    ∃ t' m', log.commit stamp t m = (.ok (), {}, t', m') ∧ GivenBack log (fun _ => stamp) t t' ∧
      m'.words = overlay log.entries m.words ∧ m.SameShape m' :=
  wf.chained.commit_held (wf.held_slots held) small exist

end

end RedoLog

end TransactionalMemory
