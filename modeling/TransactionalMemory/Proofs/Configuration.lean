import TransactionalMemory.Proofs.Outcomes

/-! # What lasts as long as a runtime

A runtime keeps the settings that it was made with and the size of its table, whatever runs on it
(`Chronicle.akin_run`), so a location is always under the same slot.  The settings allow each block one attempt at
least (`Runtime.retryBudget_ne_zero`).
-/

namespace TransactionalMemory

variable {α ε : Type}

/-- A later state of a runtime, with the same settings and a table of the same size. -/
structure Runtime.Akin (r r' : Runtime) : Prop where
  settings : r'.settings = r.settings
  bits : r'.table.bits = r.table.bits

namespace Runtime.Akin

variable {r r' r'' : Runtime}

protected theorem refl (r : Runtime) : Akin r r := ⟨rfl, rfl⟩

protected theorem trans (first : Akin r r') (second : Akin r' r'') : Akin r r'' :=
  ⟨second.settings.trans first.settings, second.bits.trans first.bits⟩

theorem slotOf (akin : Akin r r') : r'.table.slotOf = r.table.slotOf := LockTable.slotOf_congr akin.bits

end Runtime.Akin

/-! ## Operations on the table -/

theorem LockTable.bits_release {t t' : LockTable} {slot stamp : Nat} (released : t.release slot stamp = .ok t') :
    t'.bits = t.bits := by
  unfold release load at released
  by_cases large : lockBit ≤ stamp
  · rw [if_pos large] at released
    cases released
  · by_cases inside : slot < t.size
    · rw [if_neg large, if_pos inside] at released
      cases word : t.word slot with
      | free before => simp [word, bind, Except.bind] at released
      | held owner =>
        simp only [word, bind, Except.bind, pure, Except.pure, Except.ok.injEq] at released
        exact released ▸ bits_set t slot _
    · rw [if_neg large, if_neg inside] at released
      cases released

theorem LockTable.bits_acquire {t t' : LockTable} {slot : Nat} {owner : OwnerId} {how : Except Contention Acquired}
    (acquired : t.acquire slot owner = .ok (how, t')) : t'.bits = t.bits := by
  unfold acquire load at acquired
  by_cases inside : slot < t.size
  · rw [if_pos inside] at acquired
    cases word : t.word slot with
    | free stamp =>
      simp only [word, bind, Except.bind, pure, Except.pure, Except.ok.injEq, Prod.mk.injEq] at acquired
      exact acquired.2 ▸ bits_set t slot _
    | held holder =>
      by_cases own : holder = owner
      all_goals
        simp only [word, own, ↓reduceIte, bind, Except.bind, pure, Except.pure, Except.ok.injEq,
          Prod.mk.injEq] at acquired
        rw [← acquired.2]
  · rw [if_neg inside] at acquired
    cases acquired

namespace RedoLog

theorem bits_release : ∀ (held : List HeldSlot) (t : LockTable), (release held t).2.bits = t.bits
  | [], _ => rfl
  | g :: held, t => by
    simp only [release]
    cases released : t.release g.slot g.stamp with
    | error f => rfl
    | ok t' => exact (bits_release held t').trans (LockTable.bits_release released)

theorem bits_rollback (log : RedoLog) (t : LockTable) : (log.rollback t).2.2.bits = t.bits := by
  have released := bits_release log.held t
  unfold rollback
  split <;> next given => rwa [given] at released

theorem bits_commit (log : RedoLog) (stamp : Nat) (t : LockTable) (m : Memory) :
    (log.commit stamp t m).2.2.1.bits = t.bits := by
  have released := bits_release (log.heldUnder stamp) t
  unfold commit
  split
  · rfl
  · split <;> next given => rwa [given] at released

end RedoLog

/-! ## Calls -/

namespace Scope

variable {s s' : Scope} {l : Location} {kind : Kind} {v : Value}

theorem Looks.akin (looks : Looks s s') : s.runtime.Akin s'.runtime := by
  obtain ⟨upper, reads, window, rfl⟩ := looks
  exact .refl _

theorem akin_releaseWrites (s : Scope) : s.runtime.Akin s.releaseWrites.2.runtime :=
  ⟨rfl, s.context.writes.bits_rollback s.runtime.table⟩

theorem akin_start (s : Scope) (block : Nat) (mode : Mode) :
    s.runtime.Akin (s.start block mode).2.runtime := by
  have released := s.akin_releaseWrites
  unfold start
  split
  · exact .refl _
  · split
    · next given => rwa [given] at released
    · next given => rwa [given] at released

theorem akin_rollback (s : Scope) : s.runtime.Akin s.rollback.2.runtime := by
  have released := s.akin_releaseWrites
  unfold rollback
  split
  · split
    · next given => rwa [given] at released
    · next given => rwa [given] at released
  · exact .refl _

theorem akin_finishAbort (s : Scope) (c : Conflict) (site : AbortSite) :
    s.runtime.Akin (s.finishAbort c site).2.runtime := by
  unfold finishAbort
  split
  · exact .refl _
  · next tally counted =>
    have rolled := akin_rollback ⟨s.runtime, { s.context with tally, lastConflict := some c }⟩
    split
    · next failed => rwa [failed] at rolled
    · next ended =>
      rw [ended] at rolled
      cases site <;> exact rolled

theorem akin_writeTaken (s : Scope) (slot stamp : Nat) :
    s.runtime.Akin (s.writeTaken l slot stamp v).2.runtime := by
  unfold writeTaken
  dsimp only
  split
  · exact .refl _
  · split
    · exact .refl _
    · split
      · split
        · exact .refl _
        · exact .refl _
        · split <;> exact .refl _
      · exact .refl _

theorem akin_write (s : Scope) : s.runtime.Akin (s.write l v).2.runtime := by
  obtain ⟨slot, here⟩ : ∃ slot, s.runtime.table.slotOf l = slot := ⟨_, rfl⟩
  unfold write
  rw [here]
  split
  · exact .refl _
  · dsimp only
    split
    · exact .refl _
    · exact .refl _
    · split <;> exact .refl _
    · next stamp table acquired =>
      have taken : s.runtime.Akin { s.runtime with table } := ⟨rfl, LockTable.bits_acquire acquired⟩
      exact taken.trans (akin_writeTaken { s with runtime := { s.runtime with table } } slot stamp)

theorem akin_finishCommit (s : Scope) (wroteNothing : Bool) :
    s.runtime.Akin (s.finishCommit wroteNothing).2.runtime := by
  unfold finishCommit
  dsimp only
  split <;> exact .refl _

theorem akin_storeWrites (s : Scope) (stamp : Nat) : s.runtime.Akin (s.storeWrites stamp).2.runtime := by
  have bits := s.context.writes.bits_commit stamp s.runtime.table s.runtime.memory
  unfold storeWrites
  dsimp only
  generalize s.context.writes.commit stamp s.runtime.table s.runtime.memory = stored at bits ⊢
  obtain ⟨result, writes, table, memory⟩ := stored
  have after : s.runtime.Akin { s.runtime with table, memory } := ⟨rfl, bits⟩
  cases result with
  | error f => exact after
  | ok =>
    exact after.trans
      (akin_finishCommit ⟨{ s.runtime with table, memory }, { s.context with writes }⟩ false)

theorem akin_commitAt (s : Scope) (stamp : Nat) (site : AbortSite) :
    s.runtime.Akin (s.commitAt stamp site).2.runtime := by
  unfold commitAt
  dsimp only
  split
  · exact .refl _
  · split
    · exact s.akin_storeWrites stamp
    · split
      · exact .refl _
      · exact s.akin_storeWrites stamp
      · exact .refl _

theorem akin_commit (s : Scope) (site : AbortSite) : s.runtime.Akin (s.commit site).2.runtime := by
  unfold commit
  split
  · exact .refl _
  · exact .refl _
  · exact .refl _
  · split
    · exact s.akin_finishCommit true
    · have ticked : s.runtime.Akin { s.runtime with clock := s.runtime.clock.advance.2 } := ⟨rfl, rfl⟩
      dsimp only
      split
      · exact ticked
      · next stamp _ =>
        exact ticked.trans
          (akin_commitAt { s with runtime := { s.runtime with clock := s.runtime.clock.advance.2 } } stamp site)

theorem akin_publish (s : Scope) : s.runtime.Akin s.publish.2.runtime := by
  obtain ⟨published, same⟩ := s.publish_eq
  rw [same]
  exact ⟨rfl, rfl⟩

theorem akin_perform (s : Scope) (request : Request) : s.runtime.Akin (s.perform request).2.runtime := by
  cases request with
  | start block mode =>
    rw [perform, silent_snd]
    exact s.akin_start block mode
  | probe l => exact (Looks.probe s).akin
  | load l kind => exact (Looks.load s).akin
  | read l kind => exact (Looks.read s).akin
  | write l v => exact s.akin_write
  | commit => exact s.akin_commit .commit
  | rollback =>
    rw [perform, silent_snd]
    exact s.akin_rollback
  | extend =>
    rw [perform, extend_snd]
    exact .refl _
  | publish =>
    rw [perform, silent_snd]
    exact s.akin_publish

theorem akin_resume (s : Scope) (rest : Pending) : s.runtime.Akin (s.resume rest).2.runtime := by
  cases rest with
  | abort c site => exact s.akin_finishAbort c site
  | failCommit site => exact .refl _
  | extend candidate next => exact (Looks.extended s candidate next).akin
  | giveUp reason report =>
    rw [resume, silent_snd]
    unfold finishGiveUp
    dsimp only
    split <;> exact .refl _

end Scope

/-! ## Steps and runs -/

namespace Worker

theorem akin_leaveOnConflict (w : Worker) (r : Runtime) (c : Conflict) :
    r.Akin (landing (w.leaveOnConflict (α := α) (ε := ε) c r)).runtime := by
  unfold leaveOnConflict
  dsimp only
  split
  · exact .refl _
  · next tally _ =>
    have rolled := Scope.akin_rollback ⟨(w.scope r).runtime, { (w.scope r).context with tally }⟩
    split
    · next failed =>
      rw [failed] at rolled
      exact rolled
    · next ended =>
      rw [ended] at rolled
      rwa [landing_afterConflict]

theorem akin_step (w : Worker) (r : Runtime) (action : WorkerAction α ε) :
    r.Akin (landing (w.step r action)).runtime := by
  have dispatch := dispatch_step w r action
  generalize w.step r action = out at dispatch ⊢
  cases dispatch with
  | refuse => exact .refl _
  | call _ request =>
    rw [landing_advance]
    exact (w.scope r).akin_perform request
  | resume rest =>
    rw [landing_resume]
    exact (w.scope r).akin_resume rest
  | enter _ block mode =>
    rw [landing_enter]
    exact (w.scope r).akin_start block mode
  | leave _ result =>
    cases result with
    | value a =>
      rw [leave, landing_leaveBy]
      exact (w.scope r).akin_commit .block
    | failure e =>
      rw [leave, landing_leaveBy]
      exact (w.scope r).akin_commit .block
    | conflict c => exact w.akin_leaveOnConflict r c
  | decide _ b c _ control =>
    cases control with
    | stop => exact .refl _
    | retry =>
      rw [landing_retry]
      exact (w.scope r).akin_start b.id b.mode
  | unwind =>
    rw [landing_unwind]
    exact (w.scope r).akin_rollback

end Worker

theorem Runtime.akin_allocateOwner (r : Runtime) : r.Akin r.allocateOwner.2 := by
  unfold allocateOwner
  dsimp only
  split <;> exact ⟨rfl, rfl⟩

theorem System.akin_step (s : System) (a : Action α ε) : s.runtime.Akin (s.step a).2.runtime := by
  cases a with
  | announce =>
    have allocated := s.runtime.akin_allocateOwner
    rw [step, announce]
    split
    · next given => rwa [given] at allocated
    · next given => rwa [given] at allocated
  | register owner =>
    rw [step, register]
    split
    · dsimp only
      split <;> exact .refl _
    · exact .refl _
  | drop owner =>
    rw [step, drop]
    split
    · exact .refl _
    · next w _ =>
      split
      · exact .refl _
      · have rolled := (w.scope s.runtime).akin_rollback
        dsimp only
        split
        · next given => rwa [given] at rolled
        · next scope given =>
          rw [given] at rolled
          have handed := rolled.trans scope.akin_publish
          split
          · next given => rwa [given] at handed
          · next given => rwa [given] at handed
  | act owner action =>
    rw [step, act]
    split
    · exact .refl _
    · next w _ => exact w.akin_step s.runtime action

/-- A runtime keeps its settings and the size of its table. -/
theorem Chronicle.akin_run (t : Chronicle) (actions : List (Action α ε)) :
    t.system.runtime.Akin (t.run actions).system.runtime := by
  induction actions generalizing t with
  | nil => exact .refl _
  | cons a rest ih =>
    have first := t.system.akin_step a
    rw [← system_step] at first
    exact first.trans (ih (t.step a))

/-- The settings of a runtime allow one attempt at least. -/
theorem Runtime.retryBudget_ne_zero {settings : Settings} {r : Runtime} (new : Runtime.new? settings = .ok r) :
    r.settings.retryBudget ≠ some 0 := by
  intro none
  unfold new? at new
  split at new
  · cases new
  · next valid =>
    split at new
    · cases new
      unfold Settings.validate at valid
      simp only [show settings.retryBudget = some 0 from none, ↓reduceIte] at valid
      split at valid
      · cases valid
      · split at valid <;> cases valid
    · cases new

end TransactionalMemory
