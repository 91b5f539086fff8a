import TransactionalMemory.Proofs.Tallies

/-! # What the counters are about

A counter counts occurrences: commits of attempts, aborts, and blocks that give up.  What has been counted of
them is in the counters of the contexts and in those that were handed over to the runtime, so it is the sum of
both that counts (`Scope.total`).  Every function of a call has one lemma that says which occurrence it adds to
the sum, if there is room for it (`Scope.Counted`), where the end of an attempt is told from its phase before
and after (`Scope.endings`).
-/

namespace TransactionalMemory

variable {α ε : Type}

/-- Something that is counted. -/
inductive Occurrence where
  /-- An attempt has committed, of the given mode, and with or without writes. -/
  | committed (mode : Mode) (wroteNothing : Bool)
  | aborted (c : Conflict)
  /-- A block has given up. -/
  | gaveUp (reason : GiveUpReason)
  deriving DecidableEq, Repr

/-- Whether an attempt has ended. -/
def Occurrence.isEnd : Occurrence → Bool
  | gaveUp _ => false
  | _ => true

/-- The counters of a tally. -/
inductive Counter where
  | commits
  | readOnly
  | declaredReadOnly
  | elastic
  | aborts (c : Conflict)
  | exhausted
  | abandoned
  deriving DecidableEq, Repr

def Counter.counts : Counter → Occurrence → Bool
  | commits, .committed .. => true
  | readOnly, .committed _ wroteNothing => wroteNothing
  | declaredReadOnly, .committed mode _ => mode = .readOnlyRegular
  | elastic, .committed mode _ => mode = .elastic
  | aborts c, .aborted c' => c = c'
  | exhausted, .gaveUp reason => reason = .exhausted
  | abandoned, .gaveUp reason => reason = .abandoned
  | _, _ => false

/-! ## Counters of a tally -/

theorem Conflict.exists_index : ∀ i : Fin 6, ∃ c : Conflict, c.index = i
  | 0 => ⟨lockedByOther, rfl⟩
  | 1 => ⟨betweenSuccessiveReads, rfl⟩
  | 2 => ⟨betweenReadAndWrite, rfl⟩
  | 3 => ⟨writeAfterRead, rfl⟩
  | 4 => ⟨extendFailed, rfl⟩
  | 5 => ⟨invalidCommit, rfl⟩

namespace Tally

def get (t : Tally) : Counter → Nat
  | .commits => t.commits
  | .readOnly => t.readOnly
  | .declaredReadOnly => t.declaredReadOnly
  | .elastic => t.elastic
  | .aborts c => t.abortsFor c
  | .exhausted => t.exhausted
  | .abandoned => t.abandoned

@[simp] theorem get_empty (k : Counter) : get {} k = 0 := by
  cases k with
  | aborts c => simp [get, abortsFor]
  | _ => rfl

theorem fits_of_get {t : Tally} (small : ∀ k, t.get k < wordRange) : t.fits = true := by
  have aborts : t.aborts.all (· < wordRange) = true := by
    rw [Vector.all_eq_true]
    intro i inside
    obtain ⟨c, same⟩ := Conflict.exists_index ⟨i, inside⟩
    obtain rfl : c.index.val = i := congrArg Fin.val same
    exact decide_eq_true (small (.aborts c))
  simp only [fits, aborts, Bool.and_true, Bool.and_eq_true, decide_eq_true_eq]
  exact ⟨⟨⟨⟨⟨small .commits, small .readOnly⟩, small .declaredReadOnly⟩, small .elastic⟩,
    small .exhausted⟩, small .abandoned⟩

theorem checked_of_get {t : Tally} (small : ∀ k, t.get k < wordRange) : t.checked = .ok t :=
  if_pos (fits_of_get small)

/-- Counts an occurrence. -/
def count (t : Tally) : Occurrence → Except Fault Tally
  | .committed mode wroteNothing => t.countCommit mode wroteNothing
  | .aborted c => t.countAbort c
  | .gaveUp .exhausted => t.countExhausted
  | .gaveUp .abandoned => t.countAbandoned

theorem get_countCommit (t : Tally) (mode : Mode) (wroteNothing : Bool) (k : Counter) :
    get
      { t with
        commits := t.commits + 1
        readOnly := t.readOnly + if wroteNothing then 1 else 0
        declaredReadOnly := t.declaredReadOnly + if mode = .readOnlyRegular then 1 else 0
        elastic := t.elastic + if mode = .elastic then 1 else 0 } k =
      t.get k + if k.counts (.committed mode wroteNothing) then 1 else 0 := by
  cases k with
  | readOnly => cases wroteNothing <;> rfl
  | declaredReadOnly | elastic => cases mode <;> rfl
  | _ => rfl

theorem get_countAbort (t : Tally) (c : Conflict) (k : Counter) :
    get { t with aborts := t.aborts.set c.index (t.abortsFor c + 1) c.index.isLt } k =
      t.get k + if k.counts (.aborted c) then 1 else 0 := by
  cases k with
  | aborts c' =>
    by_cases same : c' = c
    · subst same
      simp [get, abortsFor, Counter.counts]
    · have apart : c.index.val ≠ c'.index.val := fun equal =>
        same (Conflict.index_injective (Fin.ext equal)).symm
      simp [get, abortsFor, Counter.counts, same, apart]
  | _ => rfl

/-- Counting is adding one to the counters of the occurrence, up to the size of a counter. -/
theorem count_eq_checked (t : Tally) (o : Occurrence) : ∃ t' : Tally,
    t.count o = t'.checked ∧ ∀ k, t'.get k = t.get k + if k.counts o then 1 else 0 := by
  cases o with
  | committed mode wroteNothing => exact ⟨_, rfl, t.get_countCommit mode wroteNothing⟩
  | aborted c => exact ⟨_, rfl, t.get_countAbort c⟩
  | gaveUp reason =>
    cases reason with
    | exhausted => exact ⟨{ t with exhausted := t.exhausted + 1 }, rfl, fun k => by cases k <;> rfl⟩
    | abandoned => exact ⟨{ t with abandoned := t.abandoned + 1 }, rfl, fun k => by cases k <;> rfl⟩

theorem get_of_count {t t' : Tally} {o : Occurrence} (counted : t.count o = .ok t') (k : Counter) :
    t'.get k = t.get k + if k.counts o then 1 else 0 := by
  obtain ⟨grown, same, gets⟩ := t.count_eq_checked o
  rw [same] at counted
  rw [eq_of_checked counted, gets]

theorem count_ok {t : Tally} {o : Occurrence} (room : ∀ k, (t.get k + if k.counts o then 1 else 0) < wordRange) :
    ∃ t', t.count o = .ok t' := by
  obtain ⟨grown, same, gets⟩ := t.count_eq_checked o
  exact ⟨grown, same.trans (checked_of_get fun k => by rw [gets]; exact room k)⟩

theorem add_ok {a b : Tally} (room : ∀ k, a.get k + b.get k < wordRange) :
    ∃ t, a.add b = .ok t ∧ ∀ k, t.get k = a.get k + b.get k := by
  obtain ⟨t, same, gets⟩ : ∃ t : Tally, a.add b = t.checked ∧ ∀ k, t.get k = a.get k + b.get k := by
    refine ⟨_, rfl, fun k => ?_⟩
    cases k with
    | aborts c => simp [get, abortsFor]
    | _ => rfl
  exact ⟨t, same.trans (checked_of_get fun k => by rw [gets]; exact room k), gets⟩

end Tally

/-! ## What a call counts -/

namespace Scope

variable {s s' t : Scope} {mode : Mode} {cause : Option Conflict}

/-- A counter of the context, with what the runtime has of it already. -/
def total (s : Scope) (k : Counter) : Nat := s.runtime.published.get k + s.context.tally.get k

/-- How an attempt of the given mode has ended in between, if it was aborted for the given cause, or for no
    cause at all. -/
def endings (mode : Mode) (cause : Option Conflict) (s s' : Scope) : List Occurrence :=
  match s.context.phase, s'.context.phase with
  | .active, .committed => [.committed mode s.context.writes.isEmpty]
  | .active, .aborted => cause.toList.map .aborted
  | _, _ => []

/-- All that has occurred has been counted, if the counters have room for it. -/
structure Counted (s : Scope) (occurrences : List Occurrence) (s' : Scope) : Prop where
  mode : s'.context.mode = s.context.mode
  total : (∀ k, s.total k + occurrences.countP (Counter.counts k) < wordRange) →
    ∀ k, s'.total k = s.total k + occurrences.countP (Counter.counts k)

/-- Nothing has been counted. -/
structure Uncounted (s s' : Scope) : Prop where
  mode : s'.context.mode = s.context.mode
  published : s'.runtime.published = s.runtime.published
  tally : s'.context.tally = s.context.tally

theorem Uncounted.refl (s : Scope) : Uncounted s s := ⟨rfl, rfl, rfl⟩

theorem Uncounted.total (same : Uncounted s s') (k : Counter) : s'.total k = s.total k := by
  rw [Scope.total, Scope.total, same.published, same.tally]

theorem Uncounted.counted (same : Uncounted s s') : Counted s [] s' := ⟨same.mode, fun _ k => same.total k⟩

theorem endings_congr {mode' : Mode} (same : s.context.phase = .active → mode = mode') :
    endings mode cause s s' = endings mode' cause s s' := by
  unfold endings
  cases phase : s.context.phase with
  | active => rw [same phase]
  | _ => rfl

theorem endings_of_same (phase : s'.context.phase = s.context.phase) : endings mode cause s s' = [] := by
  unfold endings
  rw [phase]
  cases s.context.phase <;> rfl

theorem endings_of_active (active : s'.context.phase = .active) : endings mode cause s s' = [] := by
  unfold endings
  rw [active]
  cases s.context.phase <;> rfl

theorem endings_of_inactive (inactive : s.context.phase ≠ .active) : endings mode cause s s' = [] := by
  unfold endings
  cases phase : s.context.phase with
  | active => exact absurd phase inactive
  | _ => rfl

/-- An attempt that the client gives up has not ended for a cause. -/
theorem endings_of_aborted (aborted : s'.context.phase = .aborted) : endings mode none s s' = [] := by
  unfold endings
  rw [aborted]
  cases s.context.phase <;> rfl

theorem Counted.of_same (same : Uncounted s s') (phase : s'.context.phase = s.context.phase) :
    Counted s (endings mode cause s s') s' := by
  rw [endings_of_same phase]
  exact same.counted

theorem Counted.of_looks (looks : Looks s s') : Counted s (endings mode cause s s') s' := by
  obtain ⟨upper, reads, window, rfl⟩ := looks
  exact .of_same ⟨rfl, rfl, rfl⟩ rfl

/-! ### One occurrence -/

theorem Counted.of_count {o : Occurrence} (counted : s.context.tally.count o = .ok s'.context.tally)
    (mode : s'.context.mode = s.context.mode) (published : s'.runtime.published = s.runtime.published) :
    Counted s [o] s' where
  mode := mode
  total _ k := by
    unfold Scope.total
    rw [published, Tally.get_of_count counted, List.countP_singleton, Nat.add_assoc]

/-- An occurrence for which the counters have room is counted. -/
theorem Uncounted.exists_count {o : Occurrence} (same : Uncounted s t)
    (room : ∀ k, s.total k + [o].countP (Counter.counts k) < wordRange) :
    ∃ tally, t.context.tally.count o = .ok tally := by
  refine Tally.count_ok fun k => ?_
  have room := room k
  rw [← same.total, List.countP_singleton] at room
  unfold Scope.total at room
  omega

/-! ### Calls that count nothing -/

section

variable {l : Location} {v : Value}

theorem uncounted_releaseWrites (s : Scope) : Uncounted s s.releaseWrites.2 := ⟨rfl, rfl, rfl⟩

theorem uncounted_rollback (s : Scope) : Uncounted s s.rollback.2 := by
  have released := s.uncounted_releaseWrites
  unfold rollback
  split
  · split
    · next given => rwa [given] at released
    · next given =>
      rw [given] at released
      exact ⟨released.mode, released.published, released.tally⟩
  · exact .refl s

theorem uncounted_writeTaken (s : Scope) (slot stamp : Nat) :
    Uncounted s (s.writeTaken l slot stamp v).2 := by
  unfold writeTaken
  split
  · exact .refl s
  · dsimp only
    split
    · exact ⟨rfl, rfl, rfl⟩
    · split
      · split
        · exact ⟨rfl, rfl, rfl⟩
        · exact ⟨rfl, rfl, rfl⟩
        · split <;> exact ⟨rfl, rfl, rfl⟩
      · exact ⟨rfl, rfl, rfl⟩

theorem uncounted_write (s : Scope) : Uncounted s (s.write l v).2 := by
  obtain ⟨slot, here⟩ : ∃ slot, s.runtime.table.slotOf l = slot := ⟨_, rfl⟩
  unfold write
  rw [here]
  split
  · exact .refl s
  · dsimp only
    split
    · exact .refl s
    · exact .refl s
    · split <;> exact ⟨rfl, rfl, rfl⟩
    · next table _ =>
      have taken := uncounted_writeTaken (l := l) (v := v) { s with runtime := { s.runtime with table } } slot
      exact ⟨(taken _).mode, (taken _).published, (taken _).tally⟩

theorem phase_write (s : Scope) : (s.write l v).2.context.phase = s.context.phase := by
  cases s.writes_write (l := l) (v := v) with
  | none same => rw [same]
  | log logged => exact logged.phase
  | take stamp taken => exact taken.phase

end

/-! ### Committing -/

@[simp] theorem mode_finishCommit (s : Scope) (wroteNothing : Bool) :
    (s.finishCommit wroteNothing).2.context.mode = s.context.mode := by
  unfold finishCommit
  dsimp only
  split <;> rfl

@[simp] theorem published_finishCommit (s : Scope) (wroteNothing : Bool) :
    (s.finishCommit wroteNothing).2.runtime.published = s.runtime.published := by
  unfold finishCommit
  dsimp only
  split <;> rfl

theorem tally_finishCommit {wroteNothing : Bool} {tally : Tally}
    (counted : s.context.tally.count (.committed s.context.mode wroteNothing) = .ok tally) :
    (s.finishCommit wroteNothing).2.context.tally = tally := by
  unfold finishCommit
  dsimp only
  rw [show s.context.tally.countCommit s.context.mode wroteNothing = .ok tally from counted]

/-- What a commit has done to memory and the slots does not matter to the counters. -/
theorem Uncounted.finishCommit (same : Uncounted s t) (active : s.context.phase = .active) :
    Counted s (endings s.context.mode cause s (t.finishCommit s.context.writes.isEmpty).2)
      (t.finishCommit s.context.writes.isEmpty).2 := by
  -- If the counters have no room for the commit there is a fault, but the attempt is committed all the same; nothing is
  -- claimed of the sum then.
  have committed : endings s.context.mode cause s (t.finishCommit s.context.writes.isEmpty).2 =
      [.committed s.context.mode s.context.writes.isEmpty] := by
    unfold endings
    rw [active, phase_finishCommit]
  rw [committed]
  refine ⟨(mode_finishCommit ..).trans same.mode, fun room => ?_⟩
  obtain ⟨tally, counted⟩ := same.exists_count room
  have gained : (t.finishCommit s.context.writes.isEmpty).2.context.tally = tally :=
    tally_finishCommit (by rwa [same.mode])
  refine (Counted.of_count ?_ (by rw [mode_finishCommit, same.mode]) ?_).total room
  · rw [gained, ← same.tally, counted]
  · rw [published_finishCommit, same.published]

theorem Uncounted.storeWrites (same : Uncounted s t) (active : s.context.phase = .active)
    (context : t.context = s.context) (some : s.context.writes.isEmpty = false) (stamp : Nat) :
    Counted s (endings s.context.mode cause s (t.storeWrites stamp).2) (t.storeWrites stamp).2 := by
  unfold Scope.storeWrites
  dsimp only
  split
  · exact .of_same ⟨same.mode, same.published, same.tally⟩ (by rw [context])
  · rw [← some]
    exact Uncounted.finishCommit (s := s) ⟨same.mode, same.published, same.tally⟩ active

theorem counted_commit (s : Scope) (site : AbortSite) :
    Counted s (endings s.context.mode cause s (s.commit site).2) (s.commit site).2 := by
  -- An attempt that is not active any more has been counted when it ended.
  by_cases active : s.context.phase = .active
  · unfold commit
    rw [active]
    dsimp only
    split
    · next nothing =>
      rw [← nothing]
      exact (Uncounted.refl s).finishCommit active
    · next some =>
      have same : Uncounted s ⟨{ s.runtime with clock := s.runtime.clock.advance.2 }, s.context⟩ :=
        ⟨rfl, rfl, rfl⟩
      have stored : ∀ stamp, Counted s (endings s.context.mode cause s _) _ :=
        same.storeWrites active rfl (Bool.eq_false_iff.mpr some)
      split
      · exact .of_same ⟨rfl, rfl, rfl⟩ rfl
      · unfold commitAt
        dsimp only
        split
        · exact .of_same ⟨rfl, rfl, rfl⟩ rfl
        · split
          · exact stored _
          · split
            · exact .of_same ⟨rfl, rfl, rfl⟩ rfl
            · exact stored _
            · exact .of_same ⟨rfl, rfl, rfl⟩ rfl
  · rw [commit_snd_of_inactive active]
    exact .of_same (.refl s) rfl

/-! ### Aborting and giving up -/

/-- An attempt that is counted as aborted is rolled back. -/
theorem Counted.of_abort {c : Conflict} {tally : Tally} (counted : s.context.tally.countAbort c = .ok tally)
    (active : s.context.phase = .active) (aborted : s'.context.phase = .aborted)
    (rolled : Uncounted ⟨s.runtime, { s.context with tally }⟩ s') :
    Counted s (endings mode (some c) s s') s' := by
  have ended : endings mode (some c) s s' = [.aborted c] := by
    unfold endings
    rw [active, aborted]
    rfl
  rw [ended]
  exact .of_count (by rw [rolled.tally]; exact counted) rolled.mode rolled.published

theorem counted_finishAbort (h : s.Holding) (active : s.context.phase = .active) (c : Conflict)
    (site : AbortSite) :
    Counted s (endings mode (some c) s (s.finishAbort c site).2) (s.finishAbort c site).2 := by
  unfold finishAbort
  split
  · exact .of_same (.refl s) rfl
  · next tally counted =>
    obtain ⟨s', rolled, -, -, aborted⟩ := h.rollback_counted tally (some c)
    have same := uncounted_rollback { s with context := { s.context with tally, lastConflict := some c } }
    rw [rolled] at same ⊢
    have counted : Counted s (endings mode (some c) s s') s' :=
      .of_abort counted active (aborted active) ⟨same.mode, same.published, same.tally⟩
    cases site <;> exact counted

theorem counted_rollback (h : s.Holding) :
    Counted s (endings mode none s s.rollback.2) s.rollback.2 := by
  have same := s.uncounted_rollback
  by_cases active : s.context.phase = .active
  · obtain ⟨s', rolled, -, -, -, aborted⟩ := h.rollback
    rw [rolled] at same ⊢
    rw [endings_of_aborted (aborted active)]
    exact same.counted
  · rw [rollback_of_inactive active] at same ⊢
    exact .of_same same rfl

/-- Counters that are handed over stay in the sum. -/
theorem counted_publish (s : Scope) : Counted s [] s.publish.2 := by
  unfold publish
  dsimp only
  split
  · next empty => exact Uncounted.counted ⟨rfl, rfl, empty.symm⟩
  · constructor
    · split <;> rfl
    -- The sum of what the runtime has and what the context has fits a word, so nothing overflows.
    · intro room k
      obtain ⟨sum, added, gets⟩ := Tally.add_ok (a := s.runtime.published) (b := s.context.tally) room
      simp only [Runtime.publish, added, Except.map, total, Tally.get_empty, gets, Nat.add_zero,
        List.countP_nil]

theorem counted_finishGiveUp (s : Scope) (reason : GiveUpReason) :
    (∃ f, s.finishGiveUp reason = (.error f, s)) ∨
    ∃ s', s.finishGiveUp reason = (.ok (), s') ∧ Counted s [.gaveUp reason] s' ∧
      s'.context.phase = s.context.phase := by
  unfold finishGiveUp
  dsimp only
  split
  · exact Or.inl ⟨_, rfl⟩
  · next tally counted =>
    refine Or.inr ⟨_, rfl, .of_count ?_ rfl rfl, rfl⟩
    cases reason <;> exact counted

/-! ### Any call -/

theorem counted_perform (h : s.Holding) {request : Request}
    (plain : ∀ block mode, request ≠ .start block mode) :
    Counted s (endings s.context.mode none s (s.perform request).2) (s.perform request).2 := by
  cases request with
  | start block mode => exact absurd rfl (plain block mode)
  | probe l => exact .of_looks (.probe s)
  | load l kind => exact .of_looks (.load s)
  | read l kind => exact .of_looks (.read s)
  | write l v => exact .of_same s.uncounted_write s.phase_write
  | commit => exact s.counted_commit .commit
  | rollback =>
    rw [perform, silent_snd]
    exact counted_rollback h
  | extend =>
    rw [perform, extend_snd]
    exact .of_same (.refl s) rfl
  | publish =>
    rw [perform, silent_snd, endings_of_same s.phase_publish]
    exact s.counted_publish

/-- Only the start of an attempt makes a context active. -/
theorem active_of_perform {request : Request} (plain : ∀ block mode, request ≠ .start block mode)
    (active : (s.perform request).2.context.phase = .active) : s.context.phase = .active := by
  by_contra inactive
  have looks : ∀ {s' : Scope}, Looks s s' → s'.context.phase ≠ .active := by
    rintro s' ⟨upper, reads, window, rfl⟩
    exact inactive
  cases request with
  | start block mode => exact plain block mode rfl
  | probe l => exact looks (.probe s) active
  | load l kind => exact looks (.load s) active
  | read l kind => exact looks (.read s) active
  | write l v => exact inactive (s.phase_write.symm.trans active)
  | commit =>
    rw [perform, commit_snd_of_inactive inactive] at active
    exact inactive active
  | rollback =>
    rw [perform, silent_snd, rollback_of_inactive inactive] at active
    exact inactive active
  | extend =>
    rw [perform, extend_snd] at active
    exact inactive active
  | publish =>
    rw [perform, silent_snd, phase_publish] at active
    exact inactive active

theorem active_of_resume {rest : Pending} (active : (s.resume rest).2.context.phase = .active) :
    s.context.phase = .active := by
  by_contra inactive
  cases rest with
  | abort c site => exact inactive ((same_finishAbort_of_inactive inactive c site).phase.symm.trans active)
  | failCommit site => exact inactive active
  | extend candidate next =>
    obtain ⟨upper, reads, window, same⟩ := Looks.extended s candidate next
    rw [same] at active
    exact inactive active
  | giveUp reason report =>
    rw [resume, silent_snd] at active
    exact inactive ((same_finishGiveUp s reason).phase.symm.trans active)

end Scope

end TransactionalMemory
