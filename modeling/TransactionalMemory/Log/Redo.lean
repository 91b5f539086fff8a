import TransactionalMemory.Memory
import TransactionalMemory.Version.Table

/-! # The redo log

Writes stay in a log until the attempt commits.  The log keeps the last value of each written
location, in the order of the first writes.  The writes under one slot form a chain, from the last
one logged back to the first, and a register has the head of the chain for each slot that the attempt
holds.  A slot is taken before the first write under it is logged, and the stamp that it carried then
is kept with every write of its chain.

Slots are given back by `commit`, under a new stamp, or by `rollback`, under the old one.  Both go
through the register in ascending order, and both can stop at a fault on the way: then what was
stored and released stays so, and the log is left as it was.  A register that is kept by hashing goes
through its slots in another order, which makes no difference where the slots can be given back
(`RedoLog.release_any_order`).
-/

namespace TransactionalMemory

/-- A logged write, on the chain of its slot. -/
structure WriteEntry where
  location : Location
  slot : Nat
  value : Value
  /-- The stamp that the slot carried when it was taken. -/
  taken : Nat
  /-- The position of the write that was logged before this one under the slot. -/
  next : Option Nat
  deriving DecidableEq, Repr

/-- A held slot, and the position of the write that heads its chain. -/
structure ChainHead where
  slot : Nat
  first : Nat
  deriving DecidableEq, Repr

/-- A slot to be given back, and the stamp that it is to carry. -/
structure HeldSlot where
  slot : Nat
  stamp : Nat
  deriving DecidableEq, Repr

/-- The writes of an attempt and the slots that it holds for them. -/
structure RedoLog where
  /-- One entry for each location written under a slot, in the order of the first writes. -/
  entries : List WriteEntry
  /-- The held slots, ascending. -/
  heads : List ChainHead
  /-- Chains lead back to earlier writes, and so they end. -/
  descends : ∀ i (h : i < entries.length), ∀ j ∈ entries[i].next, j < i
  inside : ∀ h ∈ heads, h.first < entries.length
  deriving DecidableEq, Repr

instance : EmptyCollection RedoLog where
  emptyCollection :=
    { entries := []
      heads := []
      descends := fun i h => absurd h (Nat.not_lt_zero i)
      inside := fun _ member => absurd member List.not_mem_nil }

namespace RedoLog

def size (log : RedoLog) : Nat := log.entries.length

def isEmpty (log : RedoLog) : Bool := log.entries.isEmpty

def heldSlots (log : RedoLog) : Nat := log.heads.length

def entry (log : RedoLog) (i : Fin log.entries.length) : WriteEntry := log.entries.get i

/-! ## Chains -/

/-- Where the chain of a slot begins. -/
def head? (log : RedoLog) (slot : Nat) : Option (Fin log.entries.length) :=
  match found : log.heads.find? (·.slot = slot) with
  | none => none
  | some h => some ⟨h.first, log.inside h (List.mem_of_find?_eq_some found)⟩

/-- Goes along a chain to the write to a location. -/
def walk (log : RedoLog) (l : Location) (i : Fin log.entries.length) : Option (Fin log.entries.length) :=
  if (log.entry i).location = l then some i
  else match next : (log.entry i).next with
    | none => none
    | some j => log.walk l ⟨j, Nat.lt_trans (log.descends i i.isLt j next) i.isLt⟩
termination_by i.val
decreasing_by exact log.descends i i.isLt j next

/-- The position of the write to a location under a slot. -/
def find? (log : RedoLog) (slot : Nat) (l : Location) : Option (Fin log.entries.length) :=
  (log.head? slot).bind (log.walk l)

/-- The stamp that a slot carried when it was taken, if it is held. -/
def stamp? (log : RedoLog) (slot : Nat) : Option Nat := (log.head? slot).map fun i => (log.entry i).taken

def owns (log : RedoLog) (slot : Nat) : Bool := (log.stamp? slot).isSome

/-- The last value written to a location under a slot. -/
def value? (log : RedoLog) (slot : Nat) (l : Location) : Option Value :=
  (log.find? slot l).map fun i => (log.entry i).value

/-! ## Writing -/

/-- Makes a position the head of a slot's chain. -/
def setHead (slot first : Nat) : List ChainHead → List ChainHead
  | [] => [⟨slot, first⟩]
  | g :: rest =>
    if slot < g.slot then ⟨slot, first⟩ :: g :: rest
    else if slot = g.slot then ⟨slot, first⟩ :: rest
    else g :: setHead slot first rest

theorem mem_setHead {slot first : Nat} {g : ChainHead} : ∀ {heads : List ChainHead},
    g ∈ setHead slot first heads → g = ⟨slot, first⟩ ∨ g ∈ heads
  | [], member => Or.inl (List.mem_singleton.mp member)
  | h :: heads, member => by
    unfold setHead at member
    split at member
    · exact List.mem_cons.mp member
    · split at member
      · exact (List.mem_cons.mp member).imp_right (List.mem_cons_of_mem h)
      · rcases List.mem_cons.mp member with rfl | member
        · exact Or.inr List.mem_cons_self
        · exact (mem_setHead member).imp_right (List.mem_cons_of_mem h)

/-- Puts another value in the place of the one at a position. -/
def revalue (log : RedoLog) (i : Nat) (v : Value) : RedoLog where
  entries := log.entries.modify i ({ · with value := v })
  heads := log.heads
  descends j h k next := by
    rw [List.length_modify] at h
    refine log.descends j h k ?_
    rw [List.getElem_modify] at next
    split at next <;> exact next
  inside h member := by
    rw [List.length_modify]
    exact log.inside h member

/-- Logs a write at the end, as the new head of its slot's chain. -/
def push (log : RedoLog) (e : WriteEntry) (back : ∀ j ∈ e.next, j < log.entries.length) : RedoLog where
  entries := log.entries ++ [e]
  heads := setHead e.slot log.entries.length log.heads
  descends i h j next := by
    by_cases old : i < log.entries.length
    · rw [List.getElem_append_left old] at next
      exact log.descends i old j next
    · rw [List.getElem_append_right (Nat.le_of_not_lt old), List.getElem_singleton] at next
      exact Nat.lt_of_lt_of_le (back j next) (Nat.le_of_not_lt old)
  inside h member := by
    rw [List.length_append, List.length_singleton]
    rcases mem_setHead member with rfl | member
    · exact Nat.lt_succ_self _
    · exact Nat.lt_succ_of_lt (log.inside h member)

/-- Logs a write, in the place of an earlier one to the same location.  The first write under a slot
    needs the stamp that the slot carried; it is a fault if the slot was held already and yet is
    not one of the log's. -/
def append (log : RedoLog) (slot : Nat) (l : Location) (v : Value) (stamp : Option Nat) :
    Except Fault RedoLog :=
  match log.find? slot l, log.head? slot, stamp with
  | some i, _, _ => .ok (log.revalue i v)
  | none, some i, _ => .ok (log.push ⟨l, slot, v, (log.entry i).taken, some i⟩
      fun _ member => Option.some_inj.mp member ▸ i.isLt)
  | none, none, some stamp => .ok (log.push ⟨l, slot, v, stamp, none⟩
      fun j member => absurd member (Option.not_mem_none j))
  | none, none, none => .error (.writeWithoutLock slot)

/-! ## The end of an attempt -/

/-- The held slots with their old stamps, as the heads of their chains have them. -/
def held (log : RedoLog) : List HeldSlot :=
  log.heads.pmap (fun h inside =>
      let e := log.entry ⟨h.first, inside⟩
      ⟨e.slot, e.taken⟩)
    log.inside

/-- The held slots, with one new stamp for all. -/
def heldUnder (log : RedoLog) (stamp : Nat) : List HeldSlot := log.heads.map (⟨·.slot, stamp⟩)

/-- Stores logged values in order, up to the first field that does not exist. -/
def store : List WriteEntry → Memory → Except Fault Unit × Memory
  | [], m => (.ok (), m)
  | e :: rest, m =>
    match m.store e.location e.value.encode with
    | .error f => (.error f, m)
    | .ok m' => store rest m'

/-- Releases slots in order, up to the first one that cannot be released. -/
def release : List HeldSlot → LockTable → Except Fault Unit × LockTable
  | [], t => (.ok (), t)
  | h :: rest, t =>
    match t.release h.slot h.stamp with
    | .error f => (.error f, t)
    | .ok t' => release rest t'

/-- Gives the held slots back under their old stamps and forgets the writes. -/
def rollback (log : RedoLog) (t : LockTable) : Except Fault Unit × RedoLog × LockTable :=
  match release log.held t with
  | (.error f, t') => (.error f, log, t')
  | (.ok (), t') => (.ok (), {}, t')

/-- Stores the written values, gives the held slots back under a new stamp and empties the log. -/
def commit (log : RedoLog) (stamp : Nat) (t : LockTable) (m : Memory) :
    Except Fault Unit × RedoLog × LockTable × Memory :=
  match store log.entries m with
  | (.error f, m') => (.error f, log, t, m')
  | (.ok (), m') =>
    match release (log.heldUnder stamp) t with
    | (.error f, t') => (.error f, log, t', m')
    | (.ok (), t') => (.ok (), {}, t', m')

def text (log : RedoLog) : String :=
  s!"WriteSet \x7b entries: {log.size}, slots: {log.heldSlots} \x7d"

end RedoLog

end TransactionalMemory
