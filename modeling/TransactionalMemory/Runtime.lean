import TransactionalMemory.Memory
import TransactionalMemory.Settings
import TransactionalMemory.Tally
import TransactionalMemory.Version.Clock
import TransactionalMemory.Version.Table

/-! # The shared runtime

What all transactions of one runtime have in common: the lock table, the clock, the memory that the
locks protect, the next owner id, and the counters that contexts have handed over.
-/

namespace TransactionalMemory

structure Runtime where
  settings : Settings
  table : LockTable
  clock : Clock := {}
  memory : Memory := {}
  nextOwner : Nat := 1
  published : Tally := {}

namespace Runtime

/-- A runtime over empty memory, if there is nothing to complain about the settings. -/
def new? (settings : Settings) : Except SettingsError Runtime :=
  match settings.validate with
  | .error e => .error e
  | .ok () =>
    match LockTable.new? settings.tableBits with
    | .ok table => .ok { settings, table }
    | .error _ => .error (.tableBits settings.tableBits)

/-- Hands out the next owner id.  Ids start at one and stay below the lock bit. -/
def allocateOwner (r : Runtime) : Except Fault OwnerId × Runtime :=
  let id := r.nextOwner
  let r' := { r with nextOwner := (id + 1) % wordRange }
  if id = 0 || lockBit ≤ id then (.error (.ownerId id), r') else (.ok ⟨id⟩, r')

/-- Adds to the published counters, all of them or, if a sum does not fit, none.  Adding them one by one would stop
    at that sum, with those before it added; no more is said here of a runtime whose counters are full. -/
def publish (r : Runtime) (t : Tally) : Except Fault Runtime :=
  (r.published.add t).map fun published => { r with published }

/-- The slot that covers a location, and what it holds. -/
def slot (r : Runtime) (l : Location) : Nat × LockWord :=
  let slot := r.table.slotOf l
  (slot, r.table.word slot)

def text (r : Runtime) : String :=
  s!"Stm \x7b config: {r.settings.text}, clock: {r.clock.now}, .. \x7d"

end Runtime

end TransactionalMemory
