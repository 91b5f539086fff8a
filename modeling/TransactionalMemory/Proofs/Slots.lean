import TransactionalMemory.Proofs.Custody
import TransactionalMemory.Proofs.Interference

/-! # Moves and the lock table

A move does to the slots of its context one of the things that a segment of a call can do to them
(`Scope.Handles`).  So the slots of the context stay the ones that its log names, and the slots of other
owners are not touched.  What a move has to be asked for beyond this is what a log remembers: the ledger
stays true, since a slot that is given back has the version that the ledger has for it.
-/

namespace TransactionalMemory

variable {allowed : Mode → Prop} {m₀ : Memory} {d d' : Seat}

theorem Context.isFast_iff {c : Context} :
    c.isFast = true ↔ c.mode = .elastic ∧ c.writes.isEmpty = true := by
  simp only [isFast]
  cases c.mode <;> simp [Mode.isElastic]

namespace Move

theorem owner (move : Move allowed d d') : d'.context.owner = d.context.owner := by
  cases move <;> rfl

theorem settings (move : Move allowed d d') : d'.runtime.settings = d.runtime.settings := by
  cases move <;> rfl

theorem nextOwner (move : Move allowed d d') : d'.runtime.nextOwner = d.runtime.nextOwner := by
  cases move <;> rfl

theorem capacity (move : Move allowed d d') :
    d'.context.window.capacity = d.context.window.capacity := by
  cases move <;> rfl

theorem limit (move : Move allowed d d') (h : d.runtime.clock.now < lockBit) :
    d'.runtime.clock.now < lockBit := by
  cases move with
  | count now published tally conflict extended broken later small => exact small
  | commitWrites stamp table memory free active wrote next small => exact small
  | _ => exact h

theorem may (move : Move allowed d d') (h : d.context.phase = .active → allowed d.context.mode)
    (active : d'.context.phase = .active) : allowed d'.context.mode := by
  cases move with
  | begin block mode table free may back => exact may
  | abandon => cases active
  | commitReads => cases active
  | commitWrites => cases active
  | _ => exact h active

end Move

/-! ## Locks -/

def Seat.scope (d : Seat) : Scope := ⟨d.runtime, d.context⟩

namespace Seat.Owning

variable {l : Location} {v : Value} {writes : RedoLog}

theorem exist_of_appended (o : d.Owning) {stamp : Option Nat} (exist : d.runtime.memory.Has l)
    (logged : d.context.writes.append (d.slotOf l) l v stamp = .ok writes) (k : Location) (u : Value)
    (found : writes.value? (d.slotOf k) k = some u) : d.runtime.memory.Has k := by
  rw [(o.wellFormed.append logged).value k] at found
  split at found
  · next same => rw [same]; exact exist
  · exact o.exist k u found

theorem of_empty (empty : d.context.writes = {})
    (none : ∀ slot, d.runtime.table.word slot ≠ .held d.context.owner) : d.Owning where
  wellFormed := by rw [empty]; exact RedoLog.wellFormed_empty _
  held slot stamp own := by rw [empty] at own; cases own
  remembered slot stamp own := by rw [empty] at own; cases own
  listed slot held := absurd held (none slot)
  idle _ := empty
  exist l v logged := by rw [empty] at logged; cases logged

end Seat.Owning

namespace Sound

theorem stamped (h : Sound allowed m₀ d) : d.runtime.table.Stamped := fun slot stamp word => by
  rw [← h.ledger.free slot stamp word]
  exact Nat.lt_of_le_of_lt (h.ledger.version_le_now slot) h.limit

theorem holding (h : Sound allowed m₀ d) : d.scope.Holding where
  wellFormed := h.owning.wellFormed
  held := h.owning.held
  small _ _ own := Nat.lt_of_le_of_lt (h.stamp_le_clock own) h.limit
  listed := h.owning.listed
  idle := h.owning.idle

/-- Only an active attempt holds a slot. -/
theorem active_of_held (h : Sound allowed m₀ d) {slot : Nat}
    (word : d.runtime.table.word slot = .held d.context.owner) : d.context.phase = .active := by
  by_contra inactive
  have listed := h.owning.listed slot word
  rw [h.owning.idle inactive] at listed
  cases listed

theorem handles (h : Sound allowed m₀ d) (move : Move allowed d d') :
    Scope.Handles d.scope d'.scope := by
  cases move with
  | writeHeld l v writes free exist word logged =>
    exact .log l v (h.active_of_held word) rfl word logged
  | writeFree l v stamp writes free active exist slow word logged =>
    exact .take l v stamp active word rfl logged
  | writeFirst l v stamp writes free active exist fast word logged =>
    exact .take l v stamp active word rfl logged
  | writeStale l v stamp writes c free active exist word logged =>
    exact .take l v stamp active word rfl logged
  | begin block mode table free may back => exact .giveBack id (h.given_back back) h.holding.small rfl
  | abandon table active noExtension back =>
    exact .giveBack id (h.given_back back) h.holding.small rfl
  | commitReads free active nothing =>
    -- Nothing is held, so nothing is given back.
    have empty : d.context.writes = {} := RedoLog.eq_empty nothing
    refine .giveBack id ⟨rfl, fun slot => ?_⟩ h.holding.small empty
    rw [show d.scope.context.writes = {} from empty]
    rfl
  | commitWrites stamp table memory free active wrote next small checked stored =>
    exact .giveBack (fun _ => stamp) (h.stored small stored).1 (fun _ _ _ => small) rfl
  | _ => exact .keep rfl rfl rfl

theorem remembered_move (h : Sound allowed m₀ d) (move : Move allowed d d') (slot stamp : Nat)
    (own : d'.context.writes.stamp? slot = some stamp) : version d'.commits slot = stamp := by
  have before : version d.commits slot = stamp := by
    rcases (h.handles move).stamp?_cases h.holding own with own | word
    · exact h.owning.remembered slot stamp own
    · exact h.ledger.free slot stamp word
  cases move with
  | commitWrites => cases own
  | _ => exact before

theorem exist_move (h : Sound allowed m₀ d) (move : Move allowed d d') (k : Location) (u : Value)
    (found : d'.context.writes.value? (d'.slotOf k) k = some u) : d'.runtime.memory.Has k := by
  cases move with
  | writeHeld l v writes free exist word logged => exact h.owning.exist_of_appended exist logged k u found
  | writeFree l v stamp writes free active exist slow word logged =>
    exact h.owning.exist_of_appended exist logged k u found
  | writeFirst l v stamp writes free active exist fast word logged =>
    exact h.owning.exist_of_appended exist logged k u found
  | writeStale l v stamp writes c free active exist word logged =>
    exact h.owning.exist_of_appended exist logged k u found
  | begin => cases found
  | abandon => cases found
  | commitWrites => cases found
  | _ => exact h.owning.exist k u found

theorem owning_move (h : Sound allowed m₀ d) (move : Move allowed d d') : d'.Owning := by
  have holding : d'.scope.Holding := h.holding.handles h.stamped move.owner (h.handles move)
  exact ⟨holding.wellFormed, holding.held, h.remembered_move move, holding.listed, holding.idle,
    h.exist_move move⟩

end Sound

/-! ## The ledger -/

namespace Ledger

variable {r : Runtime} {commits : List Commit} {table : LockTable}

theorem take (h : Ledger m₀ r commits) (slot : Nat) (owner : OwnerId) :
    Ledger m₀ { r with table := r.table.set slot (.held owner) } commits where
  ordered := h.ordered
  stamped := h.stamped
  logs := h.logs
  words := h.words
  shape := h.shape
  free other stamp word := by
    replace word : (r.table.set slot (.held owner)).word other = .free stamp := word
    rw [LockTable.word_set] at word
    split at word
    · cases word
    · exact h.free other stamp word

theorem give_back (h : Ledger m₀ r commits) {log : RedoLog}
    (remembered : ∀ slot stamp, log.stamp? slot = some stamp → version commits slot = stamp)
    (given : RedoLog.GivenBack log id r.table table) : Ledger m₀ { r with table } commits where
  ordered := h.ordered
  stamped := h.stamped
  logs := by
    rw [show table.slotOf = r.table.slotOf from LockTable.slotOf_congr given.bits]
    exact h.logs
  words := h.words
  shape := h.shape
  free slot stamp word := by
    replace word : table.word slot = .free stamp := word
    rw [given.word slot] at word
    cases own : log.stamp? slot with
    | some s =>
      rw [own] at word
      cases word
      exact remembered slot s own
    | none =>
      rw [own] at word
      exact h.free slot stamp word

theorem commit (h : Ledger m₀ r commits) {memory : Memory} {x : Commit}
    (next : x.stamp = r.clock.now + 1) (wf : x.context.writes.WellFormed r.table.slotOf)
    (given : RedoLog.GivenBack x.context.writes (fun _ => x.stamp) r.table table)
    (words : memory.words = overlay x.context.writes.entries r.memory.words)
    (shape : r.memory.SameShape memory) :
    Ledger m₀ { r with clock := ⟨x.stamp⟩, table, memory } (commits ++ [x]) where
  ordered := by
    refine List.pairwise_append.mpr ⟨h.ordered, List.pairwise_singleton .., ?_⟩
    intro y member z single
    rw [List.mem_singleton.mp single, next]
    exact Nat.lt_succ_of_le (h.stamped y member)
  stamped y member := by
    cases List.mem_append.mp member with
    | inl member =>
      have := h.stamped y member
      show y.stamp ≤ x.stamp
      omega
    | inr single =>
      obtain rfl := List.mem_singleton.mp single
      exact Nat.le_refl _
  logs y member := by
    rw [show table.slotOf = r.table.slotOf from LockTable.slotOf_congr given.bits]
    cases List.mem_append.mp member with
    | inl member => exact h.logs y member
    | inr single =>
      rw [List.mem_singleton.mp single]
      exact wf
  words := by rw [committed_append, committed_singleton, ← h.words]; exact words
  shape address := (shape address).trans (h.shape address)
  free slot stamp word := by
    replace word : table.word slot = .free stamp := word
    rw [given.word slot] at word
    rw [version_append]
    cases own : x.context.writes.stamp? slot with
    | some s =>
      rw [own] at word
      cases word
      rw [RedoLog.owns, own]
      rfl
    | none =>
      rw [own] at word
      rw [RedoLog.owns, own]
      exact h.free slot stamp word

end Ledger

theorem Sound.ledger_move (h : Sound allowed m₀ d) (move : Move allowed d d') :
    Ledger m₀ d'.runtime d'.commits := by
  have ledger := h.ledger
  cases move with
  | count now published tally conflict extended broken later small =>
    exact ⟨ledger.ordered, fun x member => Nat.le_trans (ledger.stamped x member) later, ledger.logs,
      ledger.words, ledger.shape, ledger.free⟩
  | writeFree => exact ledger.take _ _
  | writeFirst => exact ledger.take _ _
  | writeStale => exact ledger.take _ _
  | begin block mode table free may back =>
    exact ledger.give_back h.owning.remembered (h.given_back back)
  | abandon table active noExtension back => exact ledger.give_back h.owning.remembered (h.given_back back)
  | commitWrites stamp table memory free active wrote next small checked stored =>
    obtain ⟨given, words, shape⟩ := h.stored small stored
    exact ledger.commit (x := d.commit stamp) next h.owning.wellFormed given words shape
  | _ => exact ledger

/-! ## What a move leaves to others -/

theorem Sound.rely_move (h : Sound allowed m₀ d) (move : Move allowed d d') {owner : OwnerId}
    (other : owner ≠ d.context.owner) : Rely owner d d' := by
  have handles := h.handles move
  have others := handles.word_iff h.holding other
  cases move with
  | count now published tally conflict extended broken later small =>
    exact .of_words rfl rfl others rfl rfl later
  | commitWrites stamp table memory free active wrote next small checked stored =>
    refine ⟨rfl, handles.bits, by show _ ≤ stamp; omega, ⟨[d.commit stamp], rfl, ?_⟩,
      fun slot held => ⟨(others slot).mpr held, ?_⟩, fun slot held => (others slot).mp held,
      (h.stored small stored).2.2⟩
    · intro x member
      rw [List.mem_singleton.mp member]
      show _ < stamp
      omega
    · -- The slot is another owner's, so this commit does not write under it.
      refine version_append_of_not_owns _ ?_
      intro x member owns
      rw [List.mem_singleton.mp member] at owns
      obtain ⟨s, own⟩ := Option.isSome_iff_exists.mp owns
      rw [h.owning.held slot s own] at held
      cases held
      exact other rfl
  | _ => exact .of_words rfl handles.bits others rfl rfl (Nat.le_refl _)

end TransactionalMemory
