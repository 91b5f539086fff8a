import TransactionalMemory.Proofs.RetryLoops

/-! # The conflict that a block tells

After an attempt that has not committed, a block asks its caller about a conflict, or logs one when it gives up.  This
conflict is told by how the body has ended (`BodyResult.told`), and not by why the engine has aborted the attempt.
The attempt is counted once all the same: under the conflict that the engine has aborted it for, if it had before the
body ended, and otherwise under the one that is told (`told_conflict_counted_unless_aborted`).  So the two are the
same for a body that ends on the conflict that it has met; for a body that goes on to return a value they are not
(`swallowed_conflict_told_as_invalidCommit`).
-/

namespace TransactionalMemory

variable {α ε : Type}

theorem Response.isOver_of_tells {response : Response α ε} {c : Conflict} (tells : response.tells? = some c) :
    response.isOver = false := by
  cases response with
  | ended | faulted => cases tells
  | _ => rfl

/-- In a run of any contexts, let an owner run a block whose body only reads and writes, with any steps of others in
between, up to where it asks its caller about a conflict or is about to give up on one.  Then the body of the current
attempt has ended, in a way that stands for this conflict, and the attempt has been counted under one conflict: the
one that is told, if the attempt was active until its body ended, and otherwise the one that the engine has aborted it
for, which the context keeps. -/
theorem told_conflict_counted_unless_aborted {settings : Settings} {r : Runtime}
    (new : Runtime.new? settings = .ok r) (m : Memory) (before sofar : List (Action α ε)) (owner : OwnerId)
    (block : Nat) (mode : Mode) (response : Response α ε) (runs : Nat) (c : Conflict)
    (owners : (before ++ sofar).countP Action.isAnnounce < lockBit) :
    let t := (Chronicle.start r m).run before
    BlockCourse owner block mode t sofar response runs → response.tells? = some c →
    ∃ (began waited rest : List (Action α ε)) (body : BodyResult α ε) (w₀ w₁ w₂ : Worker) (counted : Conflict),
      BlockCourse owner block mode t began .attempt runs ∧ began <+: waited ∧
      sofar = waited ++ .act owner (.leave body) :: rest ∧ body.told = c ∧
      (t.run began).system.worker? owner = some w₀ ∧ (t.run waited).system.worker? owner = some w₁ ∧
      (t.run sofar).system.worker? owner = some w₂ ∧ w₁.inBody = true ∧
      w₀.context.tally.countAbort counted = .ok w₂.context.tally ∧
      (w₁.context.phase = .active ∧ w₁.context.tally = w₀.context.tally ∧ counted = c ∨
        w₁.context.AbortedFor counted ∧ w₁.context.tally = w₂.context.tally) := by
  intro t run tells
  have orderly : t.OrderlyAlong sofar := Chronicle.orderlyAlong_run new m owners
  have kept : t.system.runtime.settings = r.settings := ((Chronicle.start r m).akin_run before).settings
  have budget : t.system.runtime.settings.retryBudget ≠ some 0 := kept ▸ Runtime.retryBudget_ne_zero new
  obtain ⟨w, here⟩ := run.worker
  obtain ⟨x, trying⟩ := run.trying orderly budget here (Response.isOver_of_tells tells)
  obtain ⟨e, ended, rfl, counted⟩ := trying.tells c tells
  obtain ⟨waited, rest, w₁, split, since, there, inside, met⟩ := trying.left e ended
  obtain ⟨w₀, first, base⟩ := trying.first
  rw [← base] at counted met
  refine ⟨x.began, waited, rest, e.body, w₀, w₁, x.worker, e.counted, trying.attempt, since, split, rfl, first, there,
    trying.here, inside, counted, ?_⟩
  obtain ⟨body, before⟩ := e
  cases before with
  | none => exact Or.inl ⟨met.1, met.2, rfl⟩
  | some c => exact Or.inr ⟨met.1, Except.ok.inj (met.2.symm.trans counted)⟩

/-- The body of a block ends on the conflict that it has met, which the block tells and has counted. -/
theorem told_conflict_counted_of_faithful :
    let before : List (Action Unit Unit) :=
      [.announce, .announce, .register ⟨1⟩, .register ⟨2⟩, .act ⟨2⟩ (.call (.start 0 .regular)),
       .act ⟨2⟩ (.call (.write ⟨16, 0⟩ (.u64 5)))]
    let sofar : List (Action Unit Unit) :=
      [.act ⟨1⟩ (.enter 1 .regular), .act ⟨1⟩ (.call (.write ⟨16, 0⟩ (.u64 7))), .act ⟨1⟩ .resume,
       .act ⟨1⟩ (.leave (.conflict .lockedByOther))]
    let t := (Chronicle.start smallRuntime pair).run before
    BlockCourse ⟨1⟩ 1 .regular t sofar (.question .lockedByOther) 1 ∧
      ∃ began w₀ w₂, BlockCourse ⟨1⟩ 1 .regular t began (.attempt : Response Unit Unit) 1 ∧
        (t.run began).system.worker? ⟨1⟩ = some w₀ ∧ (t.run sofar).system.worker? ⟨1⟩ = some w₂ ∧
        w₀.context.tally.countAbort .lockedByOther = .ok w₂.context.tally := by
  intro before sofar t
  have entered :
      BlockCourse (α := Unit) (ε := Unit) ⟨1⟩ 1 .regular t [.act ⟨1⟩ (.enter 1 .regular)] .attempt 1 :=
    .enter (by decide +kernel)
  have met := entered.step (.call (.write ⟨16, 0⟩ (.u64 7))) (.standing (.abort ⟨1⟩ 1 .lockedByOther)) rfl rfl
    (by decide +kernel)
  have aborted := met.step .resume (.replied (.aborted .lockedByOther)) rfl rfl (by decide +kernel)
  have asked := aborted.step (.leave (.conflict .lockedByOther)) (.question .lockedByOther) rfl rfl
    (by decide +kernel)
  obtain ⟨began, -, -, -, w₀, -, w₂, c, course, -, -, -, first, -, here, -, counted, -⟩ :=
    told_conflict_counted_unless_aborted smallRuntime_new pair before sofar ⟨1⟩ 1 .regular
      (.question .lockedByOther) 1 .lockedByOther (by decide) asked rfl
  have others : ∀ w ∈ (t.run sofar).system.worker? ⟨1⟩, ∀ c ∈ Conflict.all.erase .lockedByOther,
      w.context.tally.abortsFor c = 0 := by decide +kernel
  obtain rfl : c = .lockedByOther := by
    by_contra other
    have member : c ∈ Conflict.all.erase .lockedByOther := by cases c <;> first | decide | exact absurd rfl other
    have more := Tally.get_of_count (o := .aborted c) counted (.aborts c)
    rw [if_pos (show Counter.counts (.aborts c) (.aborted c) = true from decide_eq_true rfl)] at more
    exact Nat.noConfusion ((others w₂ here c member).symm.trans more)
  exact ⟨asked, began, w₀, w₂, course, first, here, counted⟩

/-- The body of a block meets the lock of another context and ends with a value all the same.  The block tells its
    caller of a commit that was not valid; what it has counted is the lock. -/
theorem swallowed_conflict_told_as_invalidCommit :
    let before : List (Action Unit Unit) :=
      [.announce, .announce, .register ⟨1⟩, .register ⟨2⟩, .act ⟨2⟩ (.call (.start 0 .regular)),
       .act ⟨2⟩ (.call (.write ⟨16, 0⟩ (.u64 5)))]
    let sofar : List (Action Unit Unit) :=
      [.act ⟨1⟩ (.enter 1 .regular), .act ⟨1⟩ (.call (.write ⟨16, 0⟩ (.u64 7))), .act ⟨1⟩ .resume,
       .act ⟨1⟩ (.leave (.value ()))]
    let t := (Chronicle.start smallRuntime pair).run before
    BlockCourse ⟨1⟩ 1 .regular t sofar (.question .invalidCommit) 1 ∧
      (t.system.worker? ⟨1⟩).map (·.context.tally) = some {} ∧
      ((t.run sofar).system.worker? ⟨1⟩).map (·.context.tally.abortsFor .lockedByOther) = some 1 ∧
      ((t.run sofar).system.worker? ⟨1⟩).map (·.context.tally.abortsFor .invalidCommit) = some 0 := by
  intro before sofar t
  have entered :
      BlockCourse (α := Unit) (ε := Unit) ⟨1⟩ 1 .regular t [.act ⟨1⟩ (.enter 1 .regular)] .attempt 1 :=
    .enter (by decide +kernel)
  have met := entered.step (.call (.write ⟨16, 0⟩ (.u64 7))) (.standing (.abort ⟨1⟩ 1 .lockedByOther)) rfl rfl
    (by decide +kernel)
  have aborted := met.step .resume (.replied (.aborted .lockedByOther)) rfl rfl (by decide +kernel)
  have asked := aborted.step (.leave (.value ())) (.question .invalidCommit) rfl rfl (by decide +kernel)
  exact ⟨asked, by decide +kernel, by decide +kernel, by decide +kernel⟩

end TransactionalMemory
