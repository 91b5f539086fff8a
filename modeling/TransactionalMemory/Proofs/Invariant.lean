import TransactionalMemory.Proofs.History
import TransactionalMemory.Proofs.Moves

/-! # What is true of every seat

The invariant has a shared part, the ledger of memory and the annals of the commits so far, and a
part for each context: the slots it holds are the ones its log names, the bounds of its snapshot are
values of the clock, and its reads are accounted for as its mode promises.

A read from memory is *backed* if something under watch would tell of a change: an entry of the read
log, or the stamp of a slot that the attempt holds.  Reads that are backed and current are what
memory holds now (`Sound.holds_now`), and all three modes come down to this.
-/

namespace TransactionalMemory

/-- A read under its own slot, of a version up to the bound. -/
structure ReadEntry.Placed (e : ReadEntry) (slotOf : Location → Nat) (bound : Nat) : Prop where
  slot : e.slot = slotOf e.location
  observed : e.observed ≤ bound

theorem ReadEntry.Placed.mono {e : ReadEntry} {slotOf : Location → Nat} {bound bound' : Nat}
    (h : e.Placed slotOf bound) (le : bound ≤ bound') : e.Placed slotOf bound' :=
  ⟨h.slot, Nat.le_trans h.observed le⟩

/-- A log of writes is what the accesses come to, and what they read fits together. -/
structure Faithful (accesses : List Access) (writes : RedoLog) : Prop where
  effect : ∀ m, execute accesses m = overlay writes.entries m
  replays : ∀ m, (∀ q ∈ fromMemory accesses, q.HoldsIn m) → Replays m accesses

namespace Seat

/-- The words that memory had at a value of the clock. -/
abbrev content (m₀ : Memory) (d : Seat) (time : Nat) : Words := contentAt m₀.words d.commits time

/-- The reads of the attempt whose values came from memory. -/
abbrev taken (d : Seat) : List Reading := fromMemory d.attempt.accesses

/-- The slots that the context holds are those of its log, which remembers their versions. -/
structure Owning (d : Seat) : Prop where
  wellFormed : d.context.writes.WellFormed d.runtime.table.slotOf
  held : ∀ slot stamp, d.context.writes.stamp? slot = some stamp →
    d.runtime.table.word slot = .held d.context.owner
  remembered : ∀ slot stamp, d.context.writes.stamp? slot = some stamp → version d.commits slot = stamp
  listed : ∀ slot, d.runtime.table.word slot = .held d.context.owner → d.context.writes.owns slot = true
  idle : d.context.phase ≠ .active → d.context.writes = {}
  exist : ∀ l v, d.context.writes.value? (d.slotOf l) l = some v → d.runtime.memory.Has l

/-- The bounds are values of the clock, and every read happened between the lower one and now. -/
structure Dated (m₀ : Memory) (d : Seat) : Prop where
  lower_le : d.context.lower ≤ d.context.upper
  upper_le : d.context.upper ≤ d.runtime.clock.now
  logged : ∀ e ∈ d.context.reads.entries, e.Placed d.slotOf d.context.upper
  watched : ∀ e ∈ d.context.window.entries, e.Placed d.slotOf d.context.upper
  time : d.context.phase = .active → ∀ q ∈ d.taken,
    d.context.lower ≤ q.time ∧ q.time ≤ d.runtime.clock.now ∧ q.HoldsIn (d.content m₀ q.time)

/-- What is known of the read that a call goes on with once the bound has moved. -/
def Awaited (m₀ : Memory) (d : Seat) (candidate : Nat) : AfterExtension → Prop
  | .answer => d.attempt.extended = true
  | .loadHeld l _ =>
    d.context.phase = .active ∧ d.context.writes.value? (d.slotOf l) l = none ∧
      ∃ stamp, d.context.writes.stamp? (d.slotOf l) = some stamp ∧ stamp ≤ candidate
  | .recheck l kind slot stamp v =>
    d.context.phase = .active ∧ d.context.isFast = false ∧ slot = d.slotOf l ∧
      d.context.writes.stamp? slot = none ∧ stamp ≤ candidate ∧ d.runtime.memory.Has l ∧
      Value.decode (d.content m₀ stamp l) kind = v

/-- A call stands still before the bound moves to the candidate. -/
structure Waits (m₀ : Memory) (d : Seat) (candidate : Nat) (next : AfterExtension) : Prop where
  grows : d.context.upper ≤ candidate
  past : candidate ≤ d.runtime.clock.now
  consistent : d.context.phase = .active → d.context.mode ≠ .elastic →
    ∀ q ∈ d.taken, q.HoldsIn (d.content m₀ candidate)
  awaited : d.Awaited m₀ candidate next

/-- A read whose location is under watch for good. -/
def Backed (m₀ : Memory) (d : Seat) (q : Reading) : Prop :=
  (∃ e ∈ d.context.reads.entries, e.location = q.location ∧ q.HoldsIn (d.content m₀ e.observed)) ∨
    ∃ stamp, d.context.writes.stamp? (d.slotOf q.location) = some stamp ∧
      q.HoldsIn (d.content m₀ stamp)

/-- A logged read was overtaken before the attempt took its slot, so it cannot become current again. -/
def Doomed (d : Seat) : Prop :=
  ∃ e ∈ d.context.reads.entries, ∃ stamp, d.context.writes.stamp? e.slot = some stamp ∧
    e.observed < stamp ∧ d.context.lower < stamp

/-- The reads of a regular attempt are from one snapshot, and all of them stay under watch. -/
structure Snapshot (m₀ : Memory) (d : Seat) : Prop where
  window : d.context.window.entries = []
  consistent : ∀ q ∈ d.taken, q.HoldsIn (d.content m₀ d.context.upper)
  backed : ∀ q ∈ d.taken, d.Backed m₀ q
  told : Faithful d.attempt.accesses d.context.writes ∨ d.Doomed

/-- An entry of the window is the record of a read. -/
def Watches (m₀ : Memory) (d : Seat) (e : ReadEntry) (q : Reading) : Prop :=
  e.location = q.location ∧ q.HoldsIn (d.content m₀ e.observed)

/-- Each read and the `k` before it are what memory held at one value of the clock.  The values never
    decrease, and the next read takes the bound. -/
structure Chained (m₀ : Memory) (d : Seat) (k : Nat) (time : Nat → Nat) : Prop where
  within : ∀ i q, d.taken[i]? = some q → d.context.lower ≤ time i ∧ time i ≤ q.time
  mono : ∀ i j, i ≤ j → time i ≤ time j
  next : ∀ i, d.taken.length ≤ i → time i = d.context.upper
  holds : ∀ i q, d.taken[i]? = some q → ∀ j, i ≤ j → j ≤ i + k → q.HoldsIn (d.content m₀ (time j))

/-- The most recent reads of an elastic attempt that has not written are in the window. -/
structure Watching (m₀ : Memory) (d : Seat) : Prop where
  reads : d.context.reads.entries = []
  story : d.attempt.accesses = d.taken.map .read
  watched : List.Forall₂ (d.Watches m₀) d.context.window.entries
    (latest d.context.window.capacity d.taken)
  chained : d.attempt.extended = false → ∃ time, d.Chained m₀ d.context.window.capacity time

/-- An elastic attempt has written, and all reads that it answers for are under watch. -/
structure Covered (m₀ : Memory) (d : Seat) : Prop where
  window : d.context.window.entries = []
  written : ∃ a ∈ d.attempt.accesses, a.isRead = false
  told : Faithful d.attempt.accesses d.context.writes
  backed : ∀ q ∈ guarded d.context.window.capacity d.attempt.accesses, d.Backed m₀ q

/-- An elastic attempt that has taken a slot answers for its reads, unless it is to be aborted. -/
def Guarding (m₀ : Memory) (d : Seat) : Prop :=
  d.Covered m₀ ∨ d.attempt.broken = true ∨ Pending.isAbort d.pending

end Seat

/-- What the commits so far have in common. -/
structure Annals (allowed : Mode → Prop) (m₀ : Memory) (now : Nat) (commits readOnly : List Commit) :
    Prop where
  may : ∀ x ∈ commits ++ readOnly, allowed x.context.mode
  executed : ∀ x ∈ commits, (x.context.mode = .elastic → x.attempt.broken = false) →
    ∀ m, execute x.attempt.accesses m = overlay x.context.writes.entries m
  replayed : ∀ before x after, commits = before ++ x :: after → x.context.mode ≠ .elastic →
    Replays (committed m₀.words before) x.attempt.accesses
  readers : ∀ x ∈ readOnly, x.context.mode ≠ .elastic →
    x.context.lower ≤ x.context.upper ∧ x.context.upper ≤ x.stamp ∧ x.stamp ≤ now ∧
      Faithful x.attempt.accesses {} ∧
      Replays (contentAt m₀.words commits x.context.upper) x.attempt.accesses
  guards : ∀ before x after, commits = before ++ x :: after → x.context.mode = .elastic →
    x.attempt.broken = false → ∀ q ∈ guarded x.context.window.capacity x.attempt.accesses,
      q.HoldsIn (committed m₀.words before)

/-- The invariant of a context at the shared runtime. -/
structure Sound (allowed : Mode → Prop) (m₀ : Memory) (d : Seat) : Prop where
  ledger : Ledger m₀ d.runtime d.commits
  limit : d.runtime.clock.now < lockBit
  annals : Annals allowed m₀ d.runtime.clock.now d.commits d.readOnly
  owning : d.Owning
  dated : d.Dated m₀
  room : 0 < d.context.window.capacity
  waits : ∀ candidate next, d.pending = some (.extend candidate next) → d.Waits m₀ candidate next
  may : d.context.phase = .active → allowed d.context.mode
  snapshot : d.context.phase = .active → d.context.mode ≠ .elastic → d.Snapshot m₀
  watching : d.context.phase = .active → d.context.mode = .elastic →
    d.context.writes.isEmpty = true → d.Watching m₀
  guarding : d.context.phase = .active → d.context.mode = .elastic →
    d.context.writes.isEmpty = false → d.Guarding m₀

namespace Sound

variable {allowed : Mode → Prop} {m₀ : Memory} {d : Seat}

/-! ## Current reads -/

theorem version_of_current (h : Sound allowed m₀ d) {e : ReadEntry}
    (current : e.Current d.runtime.table d.context.owner d.context.writes) :
    version d.commits e.slot = e.observed := by
  rcases current with free | ⟨_, own⟩
  · exact h.ledger.free _ _ free
  · exact h.owning.remembered _ _ own

theorem holds_now_of_version (h : Sound allowed m₀ d) {q : Reading} {time : Nat}
    (recent : version d.commits (d.slotOf q.location) ≤ time) (holds : q.HoldsIn (d.content m₀ time)) :
    q.HoldsIn d.runtime.memory.words := by
  have same : d.content m₀ time q.location = d.runtime.memory.words q.location :=
    h.ledger.contentAt_eq recent
  rw [Reading.HoldsIn, ← same]
  exact holds

theorem holds_now_of_entry (h : Sound allowed m₀ d) {e : ReadEntry} {q : Reading} {bound : Nat}
    (placed : e.Placed d.slotOf bound)
    (current : e.Current d.runtime.table d.context.owner d.context.writes) (watches : d.Watches m₀ e q) :
    q.HoldsIn d.runtime.memory.words := by
  refine h.holds_now_of_version (Nat.le_of_eq ?_) watches.2
  rw [← watches.1, ← placed.slot, h.version_of_current current]

theorem holds_now (h : Sound allowed m₀ d) (current : d.ReadsCurrent) {q : Reading}
    (backed : d.Backed m₀ q) : q.HoldsIn d.runtime.memory.words := by
  rcases backed with ⟨e, member, watches⟩ | ⟨stamp, own, holds⟩
  · exact h.holds_now_of_entry (h.dated.logged e member) (current_of_allCurrent current e member)
      watches
  · exact h.holds_now_of_version (Nat.le_of_eq (h.owning.remembered _ _ own)) holds

theorem holds_at_clock (h : Sound allowed m₀ d) {q : Reading} :
    q.HoldsIn (d.content m₀ d.runtime.clock.now) ↔ q.HoldsIn d.runtime.memory.words := by
  rw [Seat.content, h.ledger.contentAt_now]

theorem holds_at_of_version (h : Sound allowed m₀ d) {q : Reading} {time : Nat}
    (recent : version d.commits (d.slotOf q.location) ≤ time)
    (holds : q.HoldsIn d.runtime.memory.words) : q.HoldsIn (d.content m₀ time) := by
  have same : d.content m₀ time q.location = d.runtime.memory.words q.location :=
    h.ledger.contentAt_eq recent
  rw [Reading.HoldsIn, same]
  exact holds

/-! ## Ending an attempt meets no fault -/

theorem stamp_le_clock (h : Sound allowed m₀ d) {slot stamp : Nat}
    (own : d.context.writes.stamp? slot = some stamp) : stamp ≤ d.runtime.clock.now :=
  h.owning.remembered slot stamp own ▸ h.ledger.version_le_now slot

theorem rollback_ok (h : Sound allowed m₀ d) :
    ∃ table, d.context.writes.rollback d.runtime.table = (.ok (), {}, table) ∧
      RedoLog.GivenBack d.context.writes id d.runtime.table table :=
  h.owning.wellFormed.rollback h.owning.held fun _ _ own =>
    Nat.lt_of_le_of_lt (h.stamp_le_clock own) h.limit

theorem commit_ok (h : Sound allowed m₀ d) {stamp : Nat} (small : stamp < lockBit) :
    ∃ table memory, d.context.writes.commit stamp d.runtime.table d.runtime.memory =
        (.ok (), {}, table, memory) ∧
      RedoLog.GivenBack d.context.writes (fun _ => stamp) d.runtime.table table ∧
      memory.words = overlay d.context.writes.entries d.runtime.memory.words ∧
      d.runtime.memory.SameShape memory := by
  refine h.owning.wellFormed.commit h.owning.held small ?_
  intro e member
  exact h.owning.exist e.location e.value
    ((RedoLog.value?_eq_some_iff h.owning.wellFormed).mpr ⟨e, member, rfl, rfl⟩)

theorem given_back (h : Sound allowed m₀ d) {table : LockTable}
    (back : d.context.writes.rollback d.runtime.table = (.ok (), {}, table)) :
    RedoLog.GivenBack d.context.writes id d.runtime.table table := by
  obtain ⟨table', rolled, given⟩ := h.rollback_ok
  rw [rolled] at back
  cases back
  exact given

theorem stored (h : Sound allowed m₀ d) {stamp : Nat} (small : stamp < lockBit) {table : LockTable}
    {memory : Memory} (stored : d.context.writes.commit stamp d.runtime.table d.runtime.memory =
      (.ok (), {}, table, memory)) :
    RedoLog.GivenBack d.context.writes (fun _ => stamp) d.runtime.table table ∧
      memory.words = overlay d.context.writes.entries d.runtime.memory.words ∧
      d.runtime.memory.SameShape memory := by
  obtain ⟨table', memory', committed, given⟩ := h.commit_ok small
  rw [committed] at stored
  cases stored
  exact given

end Sound

end TransactionalMemory
