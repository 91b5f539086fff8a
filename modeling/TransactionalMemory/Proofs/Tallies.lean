import TransactionalMemory.Proofs.Deeds

/-! # What a context has counted

A step of a worker counts one event at most, or it hands the counters over and starts again from zero
(`Worker.counts_step`).  So no counter of a context exceeds the number of steps that were made
(`Chronicle.atMost_run`), and none is full in a run that is shorter than what a counter can count.
-/

namespace TransactionalMemory

variable {α ε : Type}

namespace Tally

/-- What a step makes of the counters of a context. -/
inductive Counts (t : Tally) : Tally → Prop where
  | nothing : Counts t t
  | handedOver : Counts t {}
  | commit {t' : Tally} (mode : Mode) (wroteNothing : Bool)
      (counted : t.countCommit mode wroteNothing = .ok t') : Counts t t'
  | abort {t' : Tally} (c : Conflict) (counted : t.countAbort c = .ok t') : Counts t t'
  | exhausted {t' : Tally} (counted : t.countExhausted = .ok t') : Counts t t'
  | abandoned {t' : Tally} (counted : t.countAbandoned = .ok t') : Counts t t'

/-- No counter exceeds the bound. -/
structure AtMost (n : Nat) (t : Tally) : Prop where
  commits : t.commits ≤ n
  readOnly : t.readOnly ≤ n
  declaredReadOnly : t.declaredReadOnly ≤ n
  elastic : t.elastic ≤ n
  aborts : ∀ i (h : i < 6), t.aborts[i] ≤ n
  exhausted : t.exhausted ≤ n
  abandoned : t.abandoned ≤ n

theorem Counts.of_eq {t t' : Tally} (same : t' = t) : t.Counts t' := same ▸ .nothing

theorem eq_of_checked {t t' : Tally} (counted : t.checked = .ok t') : t' = t := by
  unfold checked at counted
  split at counted <;> cases counted
  rfl

theorem fits_of_checked {t t' : Tally} (counted : t.checked = .ok t') : t.fits = true := by
  unfold checked at counted
  split at counted
  · assumption
  · cases counted

namespace AtMost

variable {t t' : Tally} {n k : Nat}

theorem zero : AtMost n {} where
  commits := Nat.zero_le n
  readOnly := Nat.zero_le n
  declaredReadOnly := Nat.zero_le n
  elastic := Nat.zero_le n
  aborts i h := by simp
  exhausted := Nat.zero_le n
  abandoned := Nat.zero_le n

theorem mono (h : AtMost n t) (le : n ≤ k) : AtMost k t where
  commits := h.commits.trans le
  readOnly := h.readOnly.trans le
  declaredReadOnly := h.declaredReadOnly.trans le
  elastic := h.elastic.trans le
  aborts i inside := (h.aborts i inside).trans le
  exhausted := h.exhausted.trans le
  abandoned := h.abandoned.trans le

theorem fits (h : AtMost n t) (small : n < wordRange) : t.fits = true := by
  have aborts : t.aborts.all (· < wordRange) = true := by
    rw [Vector.all_eq_true]
    intro i inside
    exact decide_eq_true ((h.aborts i inside).trans_lt small)
  simp only [Tally.fits, aborts, Bool.and_true, Bool.and_eq_true, decide_eq_true_eq]
  exact ⟨⟨⟨⟨⟨h.commits.trans_lt small, h.readOnly.trans_lt small⟩, h.declaredReadOnly.trans_lt small⟩,
    h.elastic.trans_lt small⟩, h.exhausted.trans_lt small⟩, h.abandoned.trans_lt small⟩

theorem ofCommit (h : AtMost n t) (mode : Mode) (wroteNothing : Bool) : AtMost (n + 1)
    { t with
      commits := t.commits + 1
      readOnly := t.readOnly + if wroteNothing then 1 else 0
      declaredReadOnly := t.declaredReadOnly + if mode = .readOnlyRegular then 1 else 0
      elastic := t.elastic + if mode = .elastic then 1 else 0 } :=
  have one : ∀ {p : Prop} [Decidable p] {m : Nat}, m ≤ n → m + (if p then 1 else 0) ≤ n + 1 := by
    intro p _ m le
    split <;> omega
  { h.mono (Nat.le_succ n) with
    commits := Nat.succ_le_succ h.commits
    readOnly := one h.readOnly
    declaredReadOnly := one h.declaredReadOnly
    elastic := one h.elastic }

/-- A commit can be counted if no counter is full. -/
theorem countCommit (h : AtMost n t) (small : n + 1 < wordRange) (mode : Mode) (wroteNothing : Bool) :
    ∃ t', t.countCommit mode wroteNothing = .ok t' :=
  ⟨_, if_pos ((h.ofCommit mode wroteNothing).fits small)⟩

theorem counts (h : AtMost n t) (counts : t.Counts t') : AtMost (n + 1) t' := by
  have later := h.mono (Nat.le_succ n)
  cases counts with
  | nothing => exact later
  | handedOver => exact .zero
  | commit mode wroteNothing counted =>
    rw [eq_of_checked counted]
    exact h.ofCommit mode wroteNothing
  | abort c counted =>
    rw [eq_of_checked counted]
    refine { later with aborts := fun i inside => ?_ }
    rw [Vector.getElem_set]
    split
    · exact Nat.succ_le_succ (h.aborts _ _)
    · exact later.aborts i inside
  | exhausted counted =>
    rw [eq_of_checked counted]
    exact { later with exhausted := Nat.succ_le_succ h.exhausted }
  | abandoned counted =>
    rw [eq_of_checked counted]
    exact { later with abandoned := Nat.succ_le_succ h.abandoned }

end AtMost

end Tally

/-! ## What a call counts -/

namespace Scope

variable {s s' : Scope} {l : Location} {kind : Kind} {v : Value}

theorem Looks.counts (looks : Looks s s') : s.context.tally.Counts s'.context.tally := by
  obtain ⟨upper, reads, window, rfl⟩ := looks
  exact .nothing

theorem tally_releaseWrites (s : Scope) : s.releaseWrites.2.context.tally = s.context.tally := rfl

theorem tally_start (s : Scope) (block : Nat) (mode : Mode) :
    (s.start block mode).2.context.tally = s.context.tally := by
  have released := s.tally_releaseWrites
  unfold start
  split
  · rfl
  · split
    · next given => rwa [given] at released
    · next given => rwa [given] at released

theorem tally_rollback (s : Scope) : s.rollback.2.context.tally = s.context.tally := by
  have released := s.tally_releaseWrites
  unfold rollback
  split
  · split
    · next given => rwa [given] at released
    · next given => rwa [given] at released
  · rfl

theorem counts_finishAbort (s : Scope) (c : Conflict) (site : AbortSite) :
    s.context.tally.Counts (s.finishAbort c site).2.context.tally := by
  unfold finishAbort
  split
  · exact .of_eq rfl
  · next tally counted =>
    have rolled := tally_rollback ⟨s.runtime, { s.context with tally, lastConflict := some c }⟩
    have counts : s.context.tally.Counts tally := .abort c counted
    rw [← show _ = tally from rolled] at counts
    split
    · next failed => rwa [failed] at counts
    · next ended =>
      rw [ended] at counts
      cases site <;> exact counts

theorem tally_writeTaken (s : Scope) (slot stamp : Nat) :
    (s.writeTaken l slot stamp v).2.context.tally = s.context.tally := by
  unfold writeTaken
  split
  · rfl
  · dsimp only
    split
    · rfl
    · split
      · split
        · rfl
        · rfl
        · split <;> rfl
      · rfl

theorem tally_write (s : Scope) : (s.write l v).2.context.tally = s.context.tally := by
  obtain ⟨slot, here⟩ : ∃ slot, s.runtime.table.slotOf l = slot := ⟨_, rfl⟩
  unfold write
  rw [here]
  split
  · rfl
  · dsimp only
    split
    · rfl
    · rfl
    · split <;> rfl
    · exact tally_writeTaken _ _ _

theorem counts_finishCommit {t : Tally} (same : s.context.tally = t) (wroteNothing : Bool) :
    t.Counts (s.finishCommit wroteNothing).2.context.tally := by
  subst same
  unfold finishCommit
  dsimp only
  split
  · exact .of_eq rfl
  · next counted => exact .commit _ _ counted

theorem counts_storeWrites {t : Tally} (same : s.context.tally = t) (stamp : Nat) :
    t.Counts (s.storeWrites stamp).2.context.tally := by
  subst same
  unfold storeWrites
  dsimp only
  split
  · exact .of_eq rfl
  · exact counts_finishCommit (by rfl) false

theorem counts_commitAt {t : Tally} (same : s.context.tally = t) (stamp : Nat) (site : AbortSite) :
    t.Counts (s.commitAt stamp site).2.context.tally := by
  subst same
  unfold commitAt
  dsimp only
  split
  · exact .of_eq rfl
  · split
    · exact counts_storeWrites rfl _
    · split
      · exact .of_eq rfl
      · exact counts_storeWrites rfl _
      · exact .of_eq rfl

theorem counts_commit (s : Scope) (site : AbortSite) :
    s.context.tally.Counts (s.commit site).2.context.tally := by
  unfold commit
  split
  · exact .of_eq rfl
  · exact .of_eq rfl
  · exact .of_eq rfl
  · split
    · exact counts_finishCommit rfl true
    · dsimp only
      split
      · exact .of_eq rfl
      · exact counts_commitAt (by rfl) _ site

theorem counts_finishGiveUp (s : Scope) (reason : GiveUpReason) :
    s.context.tally.Counts (s.finishGiveUp reason).2.context.tally := by
  unfold finishGiveUp
  dsimp only
  split
  · exact .of_eq rfl
  · next counted =>
    cases reason with
    | exhausted => exact .exhausted counted
    | abandoned => exact .abandoned counted

theorem counts_perform (s : Scope) (request : Request) :
    s.context.tally.Counts (s.perform request).2.context.tally := by
  cases request with
  | start block mode =>
    rw [perform, silent_snd]
    exact .of_eq (tally_start s block mode)
  | probe l => exact (Looks.probe s).counts
  | load l kind => exact (Looks.load s).counts
  | read l kind => exact (Looks.read s).counts
  | write l v => exact .of_eq (tally_write s)
  | commit => exact counts_commit s _
  | rollback =>
    rw [perform, silent_snd]
    exact .of_eq (tally_rollback s)
  | extend =>
    rw [perform, extend_snd]
    exact .of_eq rfl
  | publish =>
    obtain ⟨published, same⟩ := publish_eq s
    rw [perform, silent_snd, same]
    exact .handedOver

theorem counts_resume (s : Scope) (rest : Pending) :
    s.context.tally.Counts (s.resume rest).2.context.tally := by
  cases rest with
  | abort c site => exact counts_finishAbort s c site
  | failCommit site => exact .of_eq rfl
  | extend candidate next => exact (Looks.extended s candidate next).counts
  | giveUp reason report =>
    rw [resume, silent_snd]
    exact counts_finishGiveUp s reason

end Scope

/-! ## What a step counts -/

namespace Worker

theorem counts_leaveOnConflict (w : Worker) (r : Runtime) (c : Conflict) :
    w.context.tally.Counts (landing (w.leaveOnConflict (α := α) (ε := ε) c r)).context.tally := by
  unfold leaveOnConflict
  dsimp only
  split
  · exact .of_eq rfl
  · next tally counted =>
    -- An attempt that was aborted already has been counted then.
    have counts : (w.scope r).context.tally.Counts tally := by
      split at counted
      · exact .abort c counted
      · cases counted
        exact .nothing
    have rolled := Scope.tally_rollback ⟨(w.scope r).runtime, { (w.scope r).context with tally }⟩
    rw [← show _ = tally from rolled] at counts
    split
    · next failed => rwa [failed] at counts
    · next ended =>
      rw [ended] at counts
      rwa [landing_afterConflict]

/-- A step counts one event at most, or it hands the counters over. -/
theorem counts_step (w : Worker) (r : Runtime) (action : WorkerAction α ε) :
    w.context.tally.Counts (landing (w.step r action)).context.tally := by
  have dispatch := dispatch_step w r action
  generalize w.step r action = out at dispatch ⊢
  cases dispatch with
  | refuse => exact .of_eq rfl
  | call _ request =>
    rw [landing_advance]
    exact Scope.counts_perform (w.scope r) request
  | resume =>
    rw [landing_resume]
    exact Scope.counts_resume (w.scope r) _
  | enter _ block mode =>
    rw [landing_enter]
    exact .of_eq (Scope.tally_start (w.scope r) block mode)
  | leave _ result =>
    cases result with
    | value a =>
      rw [leave, landing_leaveBy]
      exact Scope.counts_commit (w.scope r) _
    | failure e =>
      rw [leave, landing_leaveBy]
      exact Scope.counts_commit (w.scope r) _
    | conflict c => exact counts_leaveOnConflict w r c
  | decide _ b c _ control =>
    cases control with
    | stop => exact .of_eq rfl
    | retry =>
      rw [landing_retry]
      exact .of_eq (Scope.tally_start (w.scope r) b.id b.mode)
  | unwind =>
    rw [landing_unwind]
    exact .of_eq (Scope.tally_rollback (w.scope r))

end Worker

/-- What holds of counters that are zero, and is kept by what a step counts, holds of every context after a
    run, for the number of its steps. -/
theorem Chronicle.tally_run {settings : Settings} {r : Runtime} (new : Runtime.new? settings = .ok r)
    (m : Memory) (Kept : Nat → Tally → Prop) (zero : ∀ n, Kept n {})
    (counts : ∀ {n : Nat} {t t' : Tally}, Kept n t → t.Counts t' → Kept (n + 1) t')
    {actions : List (Action α ε)} (owners : actions.countP Action.isAnnounce < lockBit)
    {owner : OwnerId} {w : Worker} (there : ((start r m).run actions).system.worker? owner = some w) :
    Kept actions.length w.context.tally :=
  worker_run new m (fun n w => Kept n w.context.tally) (fun n _ _ => zero n) (fun kept => counts kept .nothing)
    (fun _ kept action => counts kept (Worker.counts_step _ _ action)) owners there

/-- In a run of any contexts, no counter of a context exceeds the number of steps. -/
theorem Chronicle.atMost_run {settings : Settings} {r : Runtime} (new : Runtime.new? settings = .ok r)
    (m : Memory) {actions : List (Action α ε)} (owners : actions.countP Action.isAnnounce < lockBit)
    {owner : OwnerId} {w : Worker} (there : ((start r m).run actions).system.worker? owner = some w) :
    w.context.tally.AtMost actions.length :=
  tally_run new m Tally.AtMost (fun _ => .zero) Tally.AtMost.counts owners there

/-- A commit that is counted as elastic is counted as a commit. -/
theorem Tally.Counts.elastic_le {t t' : Tally} (counts : t.Counts t') (le : t.elastic ≤ t.commits) :
    t'.elastic ≤ t'.commits := by
  cases counts with
  | nothing => exact le
  | handedOver => exact Nat.le_refl 0
  | commit mode wroteNothing counted =>
    rw [eq_of_checked counted]
    show t.elastic + (if mode = .elastic then 1 else 0) ≤ t.commits + 1
    split <;> omega
  | abort c counted | exhausted counted | abandoned counted =>
    rw [eq_of_checked counted]
    exact le

/-- In a run of any contexts, no context has counted more elastic commits than commits. -/
theorem Chronicle.elastic_le_run {settings : Settings} {r : Runtime} (new : Runtime.new? settings = .ok r)
    (m : Memory) {actions : List (Action α ε)} (owners : actions.countP Action.isAnnounce < lockBit)
    {owner : OwnerId} {w : Worker} (there : ((start r m).run actions).system.worker? owner = some w) :
    w.context.tally.elastic ≤ w.context.tally.commits :=
  tally_run new m (fun _ t => t.elastic ≤ t.commits) (fun _ => Nat.le_refl 0)
    (fun le counts => counts.elastic_le le) owners there

end TransactionalMemory
