import Std.Data.TreeMap.Basic
import TransactionalMemory.Memory
import TransactionalMemory.Version.Lock

/-! # The versioned lock table

Every location is covered by one slot of a fixed table.  Slots are found by multiplicative hashing,
so locations may share one, which costs spurious conflicts and nothing else.  A slot that was never
touched is free with stamp 0, and only the others are stored.

A slot index may come from outside, so the operations check it; an index that comes from `slotOf`
always passes (`slotOf_lt_size`).
-/

namespace TransactionalMemory

/-- A table of `2 ^ bits` versioned locks. -/
structure LockTable where
  bits : Nat
  bits_pos : 0 < bits
  bits_lt : bits < 64
  touched : Std.TreeMap Nat LockWord := ∅

namespace LockTable

/-- A table whose slots are all free with stamp 0. -/
def new? (bits : Nat) : Except Fault LockTable :=
  if h : 0 < bits ∧ bits < 64 then
    -- eight bytes a slot have to fit into half of the address space
    if bits < 60 then .ok { bits, bits_pos := h.1, bits_lt := h.2 } else .error .capacity
  else .error (.tableBits bits)

def size (t : LockTable) : Nat := 1 <<< t.bits

/-- An odd number near `2 ^ 64` over the golden ratio, which spreads neighbouring keys. -/
def spread : Nat := 0x9E3779B97F4A7C15

/-- The slot that covers a location: the top bits of the spread address of the field. -/
def slotOf (t : LockTable) (l : Location) : Nat :=
  ((l.object + 8 * l.offset) * spread % wordRange) >>> (64 - t.bits)

/-- What a slot holds. -/
def word (t : LockTable) (slot : Nat) : LockWord := t.touched.getD slot (.free 0)

/-- The table with another content of a slot. -/
def set (t : LockTable) (slot : Nat) (w : LockWord) : LockTable :=
  { t with touched := t.touched.insert slot w }

/-- What a slot holds, a fault for a slot outside the table. -/
def load (t : LockTable) (slot : Nat) : Except Fault LockWord :=
  if slot < t.size then .ok (t.word slot) else .error (.outOfBounds t.size slot)

/-- Looks at a slot without touching it: its content, or the other owner that holds it. -/
def check (t : LockTable) (slot : Nat) (owner : OwnerId) :
    Except Fault (Except Contention LockWord) := do
  match ← t.load slot with
  | .held holder =>
    if holder = owner then return .ok (.held holder) else return .error ⟨slot, holder⟩
  | .free stamp => return .ok (.free stamp)

/-- Takes a free slot.  A slot that the owner holds stays as it is, and so does one that another
    owner holds. -/
def acquire (t : LockTable) (slot : Nat) (owner : OwnerId) :
    Except Fault (Except Contention Acquired × LockTable) := do
  match ← t.load slot with
  | .held holder =>
    if holder = owner then return (.ok .reentrant, t) else return (.error ⟨slot, holder⟩, t)
  | .free stamp => return (.ok (.fresh stamp), t.set slot (.held owner))

/-- Frees a held slot and stamps it. -/
def release (t : LockTable) (slot stamp : Nat) : Except Fault LockTable :=
  if lockBit ≤ stamp then .error .stampTooLarge
  else do
    match ← t.load slot with
    | .held _ => return t.set slot (.free stamp)
    | .free _ => .error .releaseOfFreeSlot

def text (t : LockTable) : String := s!"LockTable \x7b slots: {t.size}, .. \x7d"

/-! ## The slot of a location is a slot of the table -/

theorem slotOf_lt_size (t : LockTable) (l : Location) : t.slotOf l < t.size := by
  have hsplit : wordRange = 2 ^ t.bits * 2 ^ (64 - t.bits) := by
    rw [← Nat.pow_add, Nat.add_sub_cancel' (Nat.le_of_lt t.bits_lt), wordRange, Nat.one_shiftLeft]
  rw [slotOf, size, Nat.shiftRight_eq_div_pow, Nat.one_shiftLeft,
    Nat.div_lt_iff_lt_mul (Nat.two_pow_pos _), ← hsplit]
  exact Nat.mod_lt _ (by simp [wordRange])

end LockTable

end TransactionalMemory
