import TransactionalMemory.Call

/-! # Reads that nobody interrupts

A segment of a read is the part of the loop that runs while nobody else acts.  Then only the look after an
event can find the slot changed, and a pass that has begun goes through: it ends in the segment, or stands
before the bound moves (`Scope.loadFree_eq`, `Scope.readFrom_settle`).
-/

namespace TransactionalMemory

theorem LockTable.load_of_check {t : LockTable} {slot stamp : Nat} {owner : OwnerId}
    (free : t.check slot owner = .ok (.ok (.free stamp))) : t.load slot = .ok (.free stamp) := by
  unfold check at free
  cases loaded : t.load slot with
  | error f => simp [loaded, bind, Except.bind] at free
  | ok w =>
    cases w with
    | free stamp' => simpa [loaded, bind, Except.bind, pure, Except.pure] using free
    | held holder =>
      simp only [loaded, bind, Except.bind, pure, Except.pure] at free
      split at free <;> cases free

namespace Scope

/-- The rest of a pass of an elastic attempt that has not written, from where its bound has to move. -/
def slide (s : Scope) (l : Location) (slot stamp : Nat) (v : Value) : Progress × Scope :=
  let c := s.context
  match c.window.validate s.runtime.table c.owner c.writes with
  | .error f => (.faulted f, s)
  | .ok false => s.abort .betweenSuccessiveReads .access
  | .ok true =>
    { s with context := { c with upper := s.runtime.clock.now } }.finishRead l slot stamp v

variable (s : Scope) (l : Location) (kind : Kind) (slot stamp : Nat) (v : Value)

theorem readFrom_settle : s.readFrom l kind slot (.settle stamp v) =
    match s.runtime.table.load slot with
    | .error f => (.faulted f, s)
    | .ok w => if w = .free stamp then s.finishRead l slot stamp v else s.loadFree l kind slot := by
  rw [readFrom_eq]
  unfold readStep lookAgain
  cases s.runtime.table.load slot with
  | error f => rfl
  | ok w => by_cases same : w = .free stamp <;> simp only [same, ↓reduceIte] <;> rfl

theorem afterExtension_recheck : s.afterExtension (.recheck l kind slot stamp v) =
    match s.runtime.table.load slot with
    | .error f => (.faulted f, s)
    | .ok w => if w = .free stamp then s.finishRead l slot stamp v else s.loadFree l kind slot :=
  readFrom_settle s l kind slot stamp v

variable {s slot stamp}

theorem readFrom_move (loaded : s.runtime.table.load slot = .ok (.free stamp)) :
    s.readFrom l kind slot (.move stamp v) =
      if s.context.isFast then s.slide l slot stamp v
      else s.tryExtend (.recheck l kind slot stamp v) fun s => s.abort .extendFailed .access := by
  rw [readFrom_eq]
  unfold readStep moveBound slide
  by_cases fast : s.context.isFast
  · simp only [fast, ↓reduceIte]
    cases s.context.window.validate s.runtime.table s.context.owner s.context.writes with
    | error f => rfl
    | ok current =>
      cases current with
      | false => rfl
      | true =>
        show readFrom { s with context := { s.context with upper := s.runtime.clock.now } } .. = _
        rw [readFrom_settle]
        simp only [loaded, ↓reduceIte]
  · simp only [fast, Bool.false_eq_true, ↓reduceIte]
    rfl

theorem readFrom_confirm (loaded : s.runtime.table.load slot = .ok (.free stamp)) :
    s.readFrom l kind slot (.confirm stamp v) =
      if stamp ≤ s.context.upper then s.finishRead l slot stamp v
      else if s.context.isFast then s.slide l slot stamp v
      else s.tryExtend (.recheck l kind slot stamp v) fun s => s.abort .extendFailed .access := by
  rw [readFrom_eq]
  unfold readStep lookAgain
  simp only [loaded, ↓reduceIte]
  split
  · rfl
  · exact readFrom_move l kind v loaded

variable (s slot)

/-- One pass, while nobody else acts. -/
theorem loadFree_eq : s.loadFree l kind slot =
    match s.runtime.table.check slot s.context.owner with
    | .error f => (.faulted f, s)
    | .ok (.error contention) => s.abort contention.conflict .access
    | .ok (.ok (.held _)) => (.faulted (.readWithoutLock slot), s)
    | .ok (.ok (.free stamp)) =>
      match s.runtime.memory.peek l kind with
      | .error f => (.faulted f, s)
      | .ok v =>
        if stamp ≤ s.context.upper then s.finishRead l slot stamp v
        else if s.context.isFast then s.slide l slot stamp v
        else s.tryExtend (.recheck l kind slot stamp v) fun s => s.abort .extendFailed .access := by
  rw [loadFree, readFrom_eq]
  unfold readStep lookAt
  cases checked : s.runtime.table.check slot s.context.owner with
  | error f => rfl
  | ok looked =>
    cases looked with
    | error contention => rfl
    | ok w =>
      cases w with
      | held holder => rfl
      | free stamp =>
        show s.readFrom l kind slot (.load stamp) = _
        rw [readFrom_eq]
        unfold readStep
        dsimp only
        cases s.runtime.memory.peek l kind with
        | error f => rfl
        | ok v => exact readFrom_confirm l kind v (LockTable.load_of_check checked)

end Scope

end TransactionalMemory
