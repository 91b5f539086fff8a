import TransactionalMemory.Proofs.Segments

/-! # Calls of clients leave nothing to blocks

A segment of a call may come to stand at an event, and leaves the rest of the call then.  A call that a client has made
leaves a client's call, and it never ends as the commit of a block does (`Scope.isOfBlock_perform`,
`Scope.isOfBlock_resume`).
-/

namespace TransactionalMemory

/-- The segment is one of a block, or leaves something for a block to go on with. -/
def Progress.isOfBlock : Progress → Bool
  | standing e rest => e.isGaveUp || rest.isOfBlock
  | commitLost => true
  | _ => false

namespace Scope

variable {s s' : Scope} {l : Location} {kind : Kind} {v : Value} {slot stamp : Nat}

theorem isOfBlock_obstacle {a : Progress} (obstacle : s.obstacle? = some a) : a.isOfBlock = false := by
  unfold obstacle? at obstacle
  split at obstacle <;> cases obstacle <;> rfl

theorem isOfBlock_tryExtend {next : AfterExtension} {failed : Scope → Progress × Scope}
    (otherwise : (failed s).1.isOfBlock = false) : (s.tryExtend next failed).1.isOfBlock = false := by
  unfold tryExtend
  dsimp only
  split
  · rfl
  · rfl
  · exact otherwise

theorem isOfBlock_finishRead : (s.finishRead l slot stamp v).1.isOfBlock = false := by
  unfold finishRead
  split <;> rfl

theorem isOfBlock_loadHeld : (s.loadHeld l kind).1.isOfBlock = false := by
  unfold loadHeld
  split <;> rfl

theorem isOfBlock_loadFree : (s.loadFree l kind slot).1.isOfBlock = false := by
  rw [loadFree_eq]
  split
  · rfl
  · rfl
  · rfl
  · split
    · rfl
    · split
      · exact isOfBlock_finishRead
      · split
        · unfold slide
          dsimp only
          split
          · rfl
          · rfl
          · exact isOfBlock_finishRead
        · exact isOfBlock_tryExtend rfl

theorem isOfBlock_load : (s.load l kind).1.isOfBlock = false := by
  unfold load
  split
  · next obstacle => exact isOfBlock_obstacle obstacle
  · dsimp only
    split
    · exact isOfBlock_loadFree
    · split
      · rfl
      · split
        · exact isOfBlock_loadHeld
        · exact isOfBlock_tryExtend rfl

theorem isOfBlock_probe : (s.probe l).1.isOfBlock = false := by
  obtain ⟨slot, here⟩ : ∃ slot, s.runtime.table.slotOf l = slot := ⟨_, rfl⟩
  unfold probe
  rw [here]
  split
  · next obstacle => exact isOfBlock_obstacle obstacle
  · split <;> rfl

theorem isOfBlock_writeTaken : (s.writeTaken l slot stamp v).1.isOfBlock = false := by
  unfold writeTaken
  dsimp only
  split
  · rfl
  · split
    · rfl
    · split
      · split <;> rfl
      · rfl

theorem isOfBlock_write : (s.write l v).1.isOfBlock = false := by
  obtain ⟨slot, here⟩ : ∃ slot, s.runtime.table.slotOf l = slot := ⟨_, rfl⟩
  unfold write
  rw [here]
  split
  · next obstacle => exact isOfBlock_obstacle obstacle
  · dsimp only
    split
    · rfl
    · rfl
    · split <;> rfl
    · exact isOfBlock_writeTaken

theorem isOfBlock_finishCommit {wroteNothing : Bool} : (s.finishCommit wroteNothing).1.isOfBlock = false := by
  unfold finishCommit
  dsimp only
  split <;> rfl

theorem isOfBlock_storeWrites : (s.storeWrites stamp).1.isOfBlock = false := by
  unfold storeWrites
  dsimp only
  split
  · rfl
  · exact isOfBlock_finishCommit

theorem isOfBlock_commit : (s.commit .commit).1.isOfBlock = false := by
  unfold commit
  split
  · rfl
  · rfl
  · rfl
  · split
    · exact isOfBlock_finishCommit
    · dsimp only
      split
      · rfl
      · unfold commitAt
        dsimp only
        split
        · rfl
        · split
          · exact isOfBlock_storeWrites
          · split
            · rfl
            · exact isOfBlock_storeWrites
            · rfl

theorem isOfBlock_silent (p : Except Fault Unit × Scope) : (silent p).1.isOfBlock = false := by
  rcases p with ⟨_ | _, s⟩ <;> rfl

theorem isOfBlock_extended (candidate : Nat) (next : AfterExtension) :
    (s.resume (.extend candidate next)).1.isOfBlock = false := by
  cases next with
  | answer => rfl
  | loadHeld l kind => exact isOfBlock_loadHeld
  | recheck l kind slot stamp v =>
    simp only [resume, afterExtension_recheck]
    split
    · rfl
    · split
      · exact isOfBlock_finishRead
      · exact isOfBlock_loadFree

/-- What a client asks for leaves nothing to a block. -/
theorem isOfBlock_perform (request : Request) : (s.perform request).1.isOfBlock = false := by
  cases request with
  | start | rollback | publish => exact isOfBlock_silent _
  | probe l => exact isOfBlock_probe
  | load l kind => exact isOfBlock_load
  | read l kind =>
    rw [perform, read]
    split
    · exact isOfBlock_load
    · exact isOfBlock_probe
  | write l v => exact isOfBlock_write
  | commit => exact isOfBlock_commit
  | extend => exact isOfBlock_tryExtend rfl

theorem isOfBlock_resume {rest : Pending} (client : rest.isOfBlock = false) :
    (s.resume rest).1.isOfBlock = false := by
  cases rest with
  | giveUp => cases client
  | failCommit site => cases site <;> first | rfl | cases client
  | extend candidate next => exact isOfBlock_extended candidate next
  | abort c site =>
    rw [resume]
    unfold finishAbort
    split
    · rfl
    · split
      · rfl
      · cases site <;> first | rfl | cases client

end Scope

end TransactionalMemory
