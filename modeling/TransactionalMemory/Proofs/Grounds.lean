import TransactionalMemory.Proofs.Seclusion

/-! # The grounds on which an attempt is aborted

A segment of a call remembers a read only if it has just been made, of a slot that is free and whose stamp the
snapshot has reached, and it stands at the event of an abort only on one of the grounds that there are for
the conflict (`Scope.Grounds`): the slot is held by another owner, or a remembered read is not current any more.
Such reads go to the window or to the read log, and the bound of the snapshot moves only once the log that is in use
has been found current (`Scope.Watchful`).  `Scope.Candid` says all this, and the lemmas follow the functions of the
calls.

An attempt that takes a slot keeps the stamp that the slot had, so its reads under the slot are as current as before
(`Scope.Segment.Taken.current_iff`): what the check of a write finds is not the doing of the write.
-/

namespace TransactionalMemory

/-- A check that fails has met a read that is not current. -/
theorem exists_of_allCurrent {t : LockTable} {owner : OwnerId} {writes : RedoLog} :
    ∀ {entries : List ReadEntry}, allCurrent t owner writes entries = .ok false →
      ∃ e ∈ entries, ¬ e.Current t owner writes
  | [], failed => by cases failed
  | e :: entries, failed => by
    rw [allCurrent] at failed
    cases checked : e.isCurrent t owner writes with
    | error f =>
      rw [checked] at failed
      cases failed
    | ok current =>
      rw [checked] at failed
      cases current with
      | true =>
        obtain ⟨e', member, stale⟩ := exists_of_allCurrent failed
        exact ⟨e', List.mem_cons_of_mem _ member, stale⟩
      | false =>
        refine ⟨e, List.mem_cons_self, fun current => ?_⟩
        have inside : e.slot < t.size := by
          by_contra outside
          rw [ReadEntry.isCurrent, LockTable.load, if_neg outside] at checked
          cases checked
        rw [current.isCurrent inside] at checked
        cases checked

/-! ## Logs of writes and faults -/

namespace RedoLog

variable {log : RedoLog} {t : LockTable} {m : Memory} {stamp : Nat} {f : Fault}

/-- A commit that stops at a fault leaves the log as it was. -/
theorem commit_of_error (failed : (log.commit stamp t m).1 = .error f) : (log.commit stamp t m).2.1 = log := by
  unfold commit at failed ⊢
  split
  · rfl
  · split <;> simp_all

/-- A rollback that stops at a fault leaves the log as it was. -/
theorem rollback_of_error (failed : (log.rollback t).1 = .error f) : (log.rollback t).2.1 = log := by
  unfold rollback at failed ⊢
  split <;> simp_all

end RedoLog

/-! ## Reads that a context remembers -/

/-- The read is in one of the logs of reads. -/
def Context.Remembers (c : Context) (e : ReadEntry) : Prop := e ∈ c.reads.entries ∨ e ∈ c.window.entries

namespace Context

variable {c : Context} {e e' : ReadEntry}

/-- The contexts have the same snapshot and the same logs of reads. -/
structure SameReads (c c' : Context) : Prop where
  lower : c'.lower = c.lower
  upper : c'.upper = c.upper
  reads : c'.reads = c.reads
  window : c'.window = c.window

theorem SameReads.trans {c' c'' : Context} (same : c.SameReads c') (same' : c'.SameReads c'') : c.SameReads c'' :=
  ⟨same'.lower.trans same.lower, same'.upper.trans same.upper, same'.reads.trans same.reads,
    same'.window.trans same.window⟩

theorem SameReads.remembers {c' : Context} (same : c.SameReads c') (remembers : c'.Remembers e) :
    c.Remembers e := by
  rwa [Remembers, same.reads, same.window] at remembers

/-- A context that holds back writes is not fast. -/
theorem isFast_of_writes (some : c.writes.isEmpty = false) : c.isFast = false := by
  rw [isFast, some, Bool.and_false]

theorem remembers_of_hasRead {l : Location} (read : c.hasRead l = true) :
    ∃ e, c.Remembers e ∧ e.location = l := by
  rcases Bool.or_eq_true_iff.mp read with watched | logged
  · obtain ⟨e, member, same⟩ := List.any_eq_true.mp watched
    exact ⟨e, Or.inr member, of_decide_eq_true same⟩
  · obtain ⟨e, member, same⟩ := List.any_eq_true.mp logged
    exact ⟨e, Or.inl member, of_decide_eq_true same⟩

theorem remembers_logRead (remembers : (c.logRead e').Remembers e) : e = e' ∨ c.Remembers e := by
  unfold logRead at remembers
  split at remembers
  · rcases remembers with logged | watched
    · exact Or.inr (Or.inl logged)
    · exact (Window.mem_push watched).imp_right Or.inr
  · rcases remembers with logged | watched
    · rcases List.mem_append.mp logged with before | last
      · exact Or.inr (Or.inl before)
      · exact Or.inl (List.mem_singleton.mp last)
    · exact Or.inr (Or.inr watched)

theorem remembers_drainWindow (remembers : c.drainWindow.Remembers e) : c.Remembers e := by
  rcases remembers with drained | watched
  · exact List.mem_append.mp drained
  · cases watched

end Context

/-! ## Fields that are accessed -/

/-- The field that a request accesses. -/
def Request.location? : Request → Option Location
  | probe l | load l _ | read l _ | write l _ => some l
  | _ => none

/-- The field that a request reads. -/
def Request.reads? : Request → Option Location
  | load l _ | read l _ => some l
  | _ => none

/-- The field that a call reads once the bound has moved. -/
def AfterExtension.location? : AfterExtension → Option Location
  | answer => none
  | loadHeld l _ | recheck l .. => some l

/-- The field that a call reads once it goes on. -/
def Pending.location? : Pending → Option Location
  | extend _ next => next.location?
  | _ => none

/-- The bound that a call goes on with. -/
def Pending.bound (upper : Nat) : Pending → Nat
  | extend candidate _ => candidate
  | _ => upper

namespace Scope

variable {s s' : Scope} {l : Location} {target found : Option Location} {kind : Kind} {v : Value} {slot stamp : Nat}

/-! ## Grounds -/

/-- A read is not current any more. -/
def Stale (s : Scope) (e : ReadEntry) : Prop := ¬ e.Current s.runtime.table s.context.owner s.context.writes

/-- What there has to be for a conflict that a call meets, which may be an access to a field. -/
def Grounds (s : Scope) (target : Option Location) : Conflict → Prop
  | .lockedByOther => ∃ l ∈ target, ∃ holder,
      s.runtime.table.word (s.runtime.table.slotOf l) = .held holder ∧ holder ≠ s.context.owner
  | .betweenSuccessiveReads | .betweenReadAndWrite => ∃ e ∈ s.context.window.entries, s.Stale e
  | .writeAfterRead => ∃ l ∈ target, ∃ stamp e, s.context.Remembers e ∧ e.location = l ∧
      s.runtime.table.word (s.runtime.table.slotOf l) = .free stamp ∧ s.context.upper < stamp
  | .extendFailed | .invalidCommit => ∃ e ∈ s.context.reads.entries, s.Stale e

/-- A read that has just been made: its slot is free, with a stamp that the bound has reached. -/
structure Finds (s : Scope) (l : Location) (upper : Nat) (e : ReadEntry) : Prop where
  location : e.location = l
  slot : e.slot = s.runtime.table.slotOf l
  word : s.runtime.table.word e.slot = .free e.observed
  observed : e.observed ≤ upper

/-- What is known of a read whose slot has to be looked at again. -/
def Rechecks (s : Scope) : AfterExtension → Prop
  | .recheck l _ slot _ _ => s.context.phase = .active ∧ slot = s.runtime.table.slotOf l
  | _ => True

/-- What a segment makes of the two logs of reads and of the bound.  The read log gets reads only that are current,
    and none while the context is fast.  The bound moves only for a fast context, and a call stands still to move it
    only after it has found the read log current.  A context that is not fast has emptied its window, left it as it
    was, or come to abort. -/
structure Watchful (s : Scope) (p : Progress × Scope) : Prop where
  logged : ∀ e ∈ p.2.context.reads.entries, e ∈ s.context.reads.entries ∨
    e.Current s.runtime.table s.context.owner s.context.writes
  bound : p.2.context.upper = s.context.upper ∨ s.context.isFast = true
  fast : p.2.context.phase = .active → p.2.context.isFast = true →
    s.context.isFast = true ∧ p.2.context.reads = s.context.reads
  slow : p.2.context.phase = .active → p.2.context.isFast = false → p.2.context.window.entries = [] ∨
    s.context.isFast = false ∧ p.2.context.window = s.context.window ∨
      ∃ event c site, p.1 = .standing event (.abort c site)
  checked : ∀ event candidate next, p.1 = .standing event (.extend candidate next) →
    p.2.context = s.context ∧
      ∀ e ∈ s.context.reads.entries, e.Current s.runtime.table s.context.owner s.context.writes

/-- A segment of a call that accesses one field and reads one remembers only a read that it has made, moves the
    bound up to the clock at most, and aborts only on good grounds. -/
structure Candid (s : Scope) (target found : Option Location) (p : Progress × Scope) : Prop where
  watchful : Watchful s p
  active : p.2.context.phase = .active → s.context.phase = .active
  lower : p.2.context.lower = s.context.lower
  grows : s.context.upper ≤ p.2.context.upper
  past : p.2.context.upper ≤ s.runtime.clock.now
  remembers : ∀ e, p.2.context.Remembers e → s.context.Remembers e ∨
    (∃ v, p.1 = .answered (.value v)) ∧ ∃ l ∈ found, s.Finds l p.2.context.upper e
  waits : ∀ event candidate next, p.1 = .standing event (.extend candidate next) →
    candidate = s.runtime.clock.now ∧ p.2.Rechecks next
  aborts : ∀ owner block c rest, p.1 = .standing (.abort owner block c) rest →
    s.context.phase = .active ∧ s.Grounds target c
  fails : ∀ event site, p.1 = .standing event (.failCommit site) →
    s.context.phase = .active ∧ s.Grounds target .invalidCommit

/-- A segment that leaves the context as it is. -/
theorem Watchful.stay {a : Progress} {runtime : Runtime}
    (checked : ∀ event candidate next, a = .standing event (.extend candidate next) →
      ∀ e ∈ s.context.reads.entries, e.Current s.runtime.table s.context.owner s.context.writes) :
    Watchful s (a, ⟨runtime, s.context⟩) where
  logged _ := Or.inl
  bound := Or.inl rfl
  fast _ fast := ⟨fast, rfl⟩
  slow _ slow := Or.inr (Or.inl ⟨slow, rfl⟩)
  checked event candidate next stands := ⟨rfl, checked event candidate next stands⟩

theorem Watchful.of_same {a : Progress} (same : s.context.SameReads s'.context)
    (steady : s'.context.phase = .active → s'.context.isFast = s.context.isFast)
    (running : ∀ e rest, a ≠ .standing e rest) : Watchful s (a, s') where
  logged _ member := Or.inl (same.reads ▸ member)
  bound := Or.inl same.upper
  fast active fast := ⟨steady active ▸ fast, same.reads⟩
  slow active slow := Or.inr (Or.inl ⟨steady active ▸ slow, same.window⟩)
  checked _ _ _ stands := absurd stands (running _ _)

/-- Before an abort, a context that was fast may not be so any more. -/
theorem Watchful.of_abort (same : s.context.SameReads s'.context)
    (slowed : s'.context.isFast = true → s.context.isFast = true) (c : Conflict) (site : AbortSite) :
    Watchful s (s'.abort c site) where
  logged _ member := Or.inl (same.reads ▸ member)
  bound := Or.inl same.upper
  fast _ fast := ⟨slowed fast, same.reads⟩
  slow _ _ := Or.inr (Or.inr ⟨_, c, site, rfl⟩)
  checked _ _ _ stands := by cases stands

/-- Good grounds for a snapshot with a later bound are good grounds. -/
theorem Grounds.of_upper {upper : Nat} {c : Conflict} (grows : s.context.upper ≤ upper)
    (grounds : Grounds ⟨s.runtime, { s.context with upper }⟩ target c) : s.Grounds target c := by
  cases c with
  | writeAfterRead =>
    obtain ⟨l, member, stamp, e, remembers, same, word, beyond⟩ := grounds
    exact ⟨l, member, stamp, e, remembers, same, word, grows.trans_lt beyond⟩
  | _ => exact grounds

namespace Candid

section

variable (past : s.context.upper ≤ s.runtime.clock.now)

include past

/-- A segment that leaves the snapshot and the logs of reads as they are. -/
theorem of_same {a : Progress} (same : s.context.SameReads s'.context)
    (steady : s'.context.phase = .active → s.context.phase = .active ∧ s'.context.isFast = s.context.isFast)
    (running : ∀ e rest, a ≠ .standing e rest) : Candid s target found (a, s') where
  watchful := .of_same same (fun active => (steady active).2) running
  active active := (steady active).1
  lower := same.lower
  grows := same.upper.ge
  past := same.upper.trans_le past
  remembers _ remembers := Or.inl (same.remembers remembers)
  waits _ _ _ stands := absurd stands (running _ _)
  aborts _ _ _ _ stands := absurd stands (running _ _)
  fails _ _ stands := absurd stands (running _ _)

theorem of_answer {a : Progress} (running : ∀ e rest, a ≠ .standing e rest) : Candid s target found (a, s) :=
  of_same past ⟨rfl, rfl, rfl, rfl⟩ (fun active => ⟨active, rfl⟩) running

theorem fault (f : Fault) : Candid s target found (.faulted f, s) :=
  of_answer past fun _ _ => Progress.noConfusion

theorem of_abort (active : s.context.phase = .active) (same : s.context.SameReads s'.context)
    (slowed : s'.context.isFast = true → s.context.isFast = true) {c : Conflict} (grounds : s.Grounds target c)
    (site : AbortSite) : Candid s target found (s'.abort c site) where
  watchful := .of_abort same slowed c site
  active _ := active
  lower := same.lower
  grows := same.upper.ge
  past := same.upper.trans_le past
  remembers _ remembers := Or.inl (same.remembers remembers)
  waits _ _ _ stands := by cases stands
  aborts _ _ _ _ stands := by
    cases stands
    exact ⟨active, grounds⟩
  fails _ _ stands := by cases stands

theorem abort (active : s.context.phase = .active) {c : Conflict} (grounds : s.Grounds target c)
    (site : AbortSite) : Candid s target found (s.abort c site) :=
  of_abort past active ⟨rfl, rfl, rfl, rfl⟩ id grounds site

end

/-- The bound of a fast context has been moved up to the clock at most, and a segment goes on from there. -/
theorem of_upper {upper : Nat} {p : Progress × Scope}
    (candid : Candid ⟨s.runtime, { s.context with upper }⟩ target found p) (fast : s.context.isFast = true)
    (grows : s.context.upper ≤ upper) (running : ∀ e rest, p.1 ≠ .standing e rest) :
    Candid s target found p where
  watchful :=
    { candid.watchful with
      bound := Or.inr fast
      checked := fun _ _ _ stands => absurd stands (running _ _) }
  active := candid.active
  lower := candid.lower
  grows := grows.trans candid.grows
  past := candid.past
  remembers e remembers := by
    rcases candid.remembers e remembers with before | ⟨told, l, member, found⟩
    · exact Or.inl before
    · exact Or.inr ⟨told, l, member, { found with }⟩
  waits := candid.waits
  aborts _ _ _ _ stands := absurd stands (running _ _)
  fails _ _ stands := absurd stands (running _ _)

/-! ## Reading -/

end Candid

/-- A read is logged under a stamp that its slot carries now. -/
theorem Watchful.finishRead (word : s.runtime.table.word slot = .free stamp) :
    Watchful s (s.finishRead l slot stamp v) := by
  unfold Scope.finishRead
  split
  · unfold Context.logRead
    split
    · next fast =>
      refine ⟨fun _ => Or.inl, Or.inl rfl, fun _ _ => ⟨fast, rfl⟩, fun _ slow => ?_, fun _ _ _ =>
        Progress.noConfusion⟩
      exact absurd (fast.symm.trans slow) Bool.noConfusion
    · next slow =>
      refine ⟨fun e member => ?_, Or.inl rfl, fun _ fast => absurd fast slow,
        fun _ slow => Or.inr (Or.inl ⟨slow, rfl⟩), fun _ _ _ => Progress.noConfusion⟩
      rcases List.mem_append.mp member with before | last
      · exact Or.inl before
      · rw [List.mem_singleton.mp last]
        exact Or.inr (Or.inl word)
  · exact .of_same ⟨rfl, rfl, rfl, rfl⟩ (fun _ => rfl) fun _ _ => Progress.noConfusion

namespace Candid

section

variable (past : s.context.upper ≤ s.runtime.clock.now)

include past

theorem finishRead (member : l ∈ found) (here : slot = s.runtime.table.slotOf l)
    (word : s.runtime.table.word slot = .free stamp) : Candid s target found (s.finishRead l slot stamp v) := by
  have watchful : Watchful s (s.finishRead l slot stamp v) := .finishRead word
  unfold Scope.finishRead at watchful ⊢
  split at watchful
  · next recent =>
    rw [if_pos recent]
    obtain ⟨phase, lower, upper⟩ : (s.context.logRead ⟨l, slot, stamp⟩).phase = s.context.phase ∧
        (s.context.logRead ⟨l, slot, stamp⟩).lower = s.context.lower ∧
        (s.context.logRead ⟨l, slot, stamp⟩).upper = s.context.upper := by
      unfold Context.logRead
      split <;> exact ⟨rfl, rfl, rfl⟩
    refine ⟨watchful, phase.symm.trans, lower, upper.ge, upper.trans_le past, fun e remembers => ?_,
      fun _ _ _ => Progress.noConfusion, fun _ _ _ _ => Progress.noConfusion, fun _ _ => Progress.noConfusion⟩
    rcases Context.remembers_logRead remembers with rfl | before
    · exact Or.inr ⟨⟨v, rfl⟩, l, member, ⟨rfl, here, word, recent.trans upper.ge⟩⟩
    · exact Or.inl before
  · next beyond =>
    rw [if_neg beyond]
    exact fault past _

theorem slide (active : s.context.phase = .active) (fast : s.context.isFast = true) (member : l ∈ found)
    (here : slot = s.runtime.table.slotOf l) (word : s.runtime.table.word slot = .free stamp) :
    Candid s target found (s.slide l slot stamp v) := by
  unfold Scope.slide
  dsimp only
  split
  · exact fault past _
  · next failed => exact abort past active (c := .betweenSuccessiveReads) (exists_of_allCurrent failed) _
  · refine of_upper (finishRead (Nat.le_refl _) member here word) fast past ?_
    unfold Scope.finishRead
    split <;> exact fun _ _ => Progress.noConfusion

theorem tryExtend {next : AfterExtension} {failed : Scope → Progress × Scope} (rechecks : s.Rechecks next)
    (otherwise : (∃ e ∈ s.context.reads.entries, s.Stale e) → Candid s target found (failed s)) :
    Candid s target found (s.tryExtend next failed) := by
  unfold Scope.tryExtend
  dsimp only
  split
  · exact fault past _
  · next valid =>
    refine ⟨.stay fun _ _ _ _ => current_of_allCurrent valid, id, rfl, Nat.le_refl _, past, fun _ => Or.inl, ?_, ?_, ?_⟩
    · intro event candidate next stands
      cases stands
      exact ⟨rfl, rechecks⟩
    · intro owner block c rest stands
      cases stands
    · intro event site stands
      cases stands
  · next invalid => exact otherwise (exists_of_allCurrent invalid)

theorem loadHeld : Candid s target found (s.loadHeld l kind) := by
  unfold Scope.loadHeld
  split <;> exact of_answer past fun _ _ => Progress.noConfusion

theorem loadFree (active : s.context.phase = .active) (aimed : l ∈ target) (member : l ∈ found)
    (here : slot = s.runtime.table.slotOf l) :
    Candid s target found (s.loadFree l kind slot) := by
  have inside : slot < s.runtime.table.size := here ▸ LockTable.slotOf_lt_size _ l
  rw [Scope.loadFree_eq]
  rw [LockTable.check_of_lt inside]
  cases word : s.runtime.table.word slot with
  | held holder =>
    by_cases own : holder = s.context.owner
    · simp only [own, ↓reduceIte]
      exact fault past _
    · simp only [own, ↓reduceIte]
      exact abort past active (c := .lockedByOther) ⟨l, aimed, holder, here ▸ word, own⟩ _
  | free stamp =>
    dsimp only
    split
    · exact fault past _
    · split
      · exact finishRead past member here word
      · split
        · next fast => exact slide past active fast member here word
        · refine tryExtend past ⟨active, here⟩ fun stale => ?_
          exact abort past active (c := .extendFailed) stale _

theorem obstacle {a : Progress} (ended : s.obstacle? = some a) : Candid s target found (a, s) := by
  refine of_answer past ?_
  unfold obstacle? at ended
  intro e rest stands
  split at ended <;> cases ended <;> cases stands

theorem load : Candid s (some l) (some l) (s.load l kind) := by
  unfold Scope.load
  split
  · next ended => exact obstacle past ended
  · next free =>
    have active : s.context.phase = .active := Leads.obstacle?_eq_none free
    dsimp only
    split
    · exact loadFree past active rfl rfl rfl
    · split
      · exact of_answer past fun _ _ => Progress.noConfusion
      · split
        · exact loadHeld past
        · exact tryExtend past trivial fun stale => abort past active (c := .extendFailed) stale _

theorem probe : Candid s (some l) found (s.probe l) := by
  cases ended : s.obstacle? with
  | some a =>
    rw [Scope.probe, ended]
    exact obstacle past ended
  | none =>
    have active : s.context.phase = .active := Leads.obstacle?_eq_none ended
    rw [probe_of_active active]
    split
    · exact of_answer past fun _ _ => Progress.noConfusion
    · next held =>
      cases word : s.runtime.table.word (s.runtime.table.slotOf l) with
      | free stamp =>
        rw [word] at held
        exact absurd rfl held
      | held holder =>
        rw [word, LockWord.isFreeFor, decide_eq_true_eq] at held
        exact abort past active (c := .lockedByOther) ⟨l, rfl, holder, word, held⟩ _

theorem read : Candid s (some l) (some l) (s.read l kind) := by
  unfold Scope.read
  split
  · next s₁ done =>
    have same := Leads.probe_snd s l
    rw [done] at same
    rw [show s₁ = s from same]
    exact load past
  · exact probe past

end

end Candid

/-! ## Writing -/

/-- The stamp of a slot that is taken is kept, so the reads under it are as current as before. -/
theorem Segment.Taken.current_iff (taken : Segment.Taken s l v stamp s') (h : s.Holding) (e : ReadEntry) :
    e.Current s'.runtime.table s'.context.owner s'.context.writes ↔
      e.Current s.runtime.table s.context.owner s.context.writes := by
  have appended := h.wellFormed.append taken.logged
  have word : s'.runtime.table.word e.slot =
      if s.runtime.table.slotOf l = e.slot then .held s.context.owner else s.runtime.table.word e.slot := by
    rw [taken.runtime]
    exact LockTable.word_set ..
  rw [ReadEntry.Current, word, appended.stamps e.slot, taken.owner]
  by_cases same : s.runtime.table.slotOf l = e.slot
  · have free : s.runtime.table.word e.slot = .free stamp := same ▸ taken.free
    have unheld : s.context.writes.stamp? e.slot = none :=
      h.stamp?_of_not_held (by rw [free]; exact LockWord.noConfusion)
    rw [if_pos same, if_pos ⟨same.symm, unheld⟩]
    refine ⟨?_, ?_⟩
    · rintro (seen | ⟨-, own⟩)
      · cases seen
      · cases own
        exact Or.inl free
    · rintro (seen | ⟨held, -⟩)
      · cases free.symm.trans seen
        exact Or.inr ⟨rfl, rfl⟩
      · cases free.symm.trans held
  · rw [if_neg same, if_neg fun both => same both.1.symm]
    rfl

namespace Candid

section

variable (past : s.context.upper ≤ s.runtime.clock.now) (h : s.Holding)

include past h

theorem writeTaken {t : Scope} (active : s.context.phase = .active)
    (inside : ∀ e, s.context.Remembers e → e.slot < s.runtime.table.size) (here : s.runtime.table.slotOf l = slot)
    (free : s.runtime.table.word slot = .free stamp)
    (runtime : t.runtime = { s.runtime with table := s.runtime.table.set slot (.held s.context.owner) })
    (context : t.context = s.context) : Candid s (some l) found (t.writeTaken l slot stamp v) := by
  subst here
  obtain ⟨writes, logged⟩ := RedoLog.append_some s.context.writes (s.runtime.table.slotOf l) l v stamp
  have taken : Segment.Taken s l v stamp { t with context := { t.context with writes } } :=
    ⟨free, runtime, by rw [context], active, by rw [context], logged⟩
  have same : s.context.SameReads { t.context with writes } := by
    rw [context]
    exact ⟨rfl, rfl, rfl, rfl⟩
  have slow : { t.context with writes }.isFast = false :=
    Context.isFast_of_writes (h.wellFormed.append logged).not_isEmpty
  unfold Scope.writeTaken
  rw [context, logged]
  rw [context] at taken same slow
  dsimp only
  split
  · next overtaken =>
    obtain ⟨beyond, read⟩ := Bool.and_eq_true_iff.mp overtaken
    obtain ⟨e, remembers, location⟩ := Context.remembers_of_hasRead read
    exact of_abort past active same (fun fast => absurd (slow.symm.trans fast) Bool.noConfusion)
      (c := .writeAfterRead)
      ⟨l, rfl, stamp, e, same.remembers remembers, location, free, of_decide_eq_true beyond⟩ _
  · split
    · split
      · next f failed =>
        have size : t.runtime.table.size = s.runtime.table.size := by rw [runtime]; rfl
        obtain ⟨b, checked⟩ := allCurrent_ok s.context.owner writes (t := t.runtime.table)
          fun e member => size ▸ inside e (Or.inr member)
        cases checked.symm.trans failed
      -- The check looks at the table with the new slot in it, which makes no difference.
      · next failed =>
        obtain ⟨e, member, stale⟩ := exists_of_allCurrent failed
        exact of_abort past active same (fun fast => absurd (slow.symm.trans fast) Bool.noConfusion)
          (c := .betweenReadAndWrite) ⟨e, member, fun current => stale ((taken.current_iff h e).mpr current)⟩ _
      · next valid =>
        split
        · refine ⟨⟨fun e member => ?_, Or.inl same.upper, fun _ fast => absurd (slow.symm.trans fast) Bool.noConfusion,
            fun _ _ => Or.inl rfl, fun _ _ _ => Progress.noConfusion⟩, fun _ => active, same.lower, same.upper.ge,
            same.upper.trans_le past, fun e remembers => ?_, fun _ _ _ => Progress.noConfusion,
            fun _ _ _ _ => Progress.noConfusion, fun _ _ => Progress.noConfusion⟩
          · rcases List.mem_append.mp member with logged | watched
            · exact Or.inl logged
            · exact Or.inr ((taken.current_iff h e).mp (current_of_allCurrent valid e watched))
          · exact Or.inl (same.remembers (Context.remembers_drainWindow remembers))
        · next still =>
          exact of_same past same (fun _ => ⟨active, slow.trans (Bool.eq_false_iff.mpr still).symm⟩)
            fun _ _ => Progress.noConfusion
    · next regular =>
      refine of_same past same (fun _ => ⟨active, slow.trans ?_⟩) fun _ _ => Progress.noConfusion
      rw [Context.isFast, Bool.eq_false_iff.mpr regular, Bool.false_and]

theorem write (inside : s.context.phase = .active → ∀ e, s.context.Remembers e → e.slot < s.runtime.table.size) :
    Candid s (some l) found (s.write l v) := by
  obtain ⟨slot, here⟩ : ∃ slot, s.runtime.table.slotOf l = slot := ⟨_, rfl⟩
  have bounded : slot < s.runtime.table.size := here ▸ LockTable.slotOf_lt_size _ l
  unfold Scope.write
  rw [here]
  cases ended : s.obstacle? with
  | some a => exact obstacle past ended
  | none =>
    have active : s.context.phase = .active := Leads.obstacle?_eq_none ended
    dsimp only
    rw [LockTable.acquire_of_lt bounded]
    cases word : s.runtime.table.word slot with
    | free stamp => exact writeTaken past h active (inside active) here word rfl rfl
    | held holder =>
      by_cases own : holder = s.context.owner
      · simp only [own, ↓reduceIte]
        split
        · exact fault past _
        · next writes logged =>
          obtain ⟨stamp, held⟩ := h.stamp?_of_held (own ▸ word)
          have some : s.context.writes.isEmpty = false := by
            by_contra nothing
            cases held.symm.trans (RedoLog.stamp?_of_isEmpty (by simpa using nothing) _)
          have appended : RedoLog.Appended s.context.writes writes s.runtime.table.slotOf l v none :=
            h.wellFormed.append (here.symm ▸ logged)
          refine of_same past ⟨rfl, rfl, rfl, rfl⟩ (fun _ => ⟨active, ?_⟩) fun _ _ => Progress.noConfusion
          rw [Context.isFast_of_writes some]
          exact Context.isFast_of_writes appended.not_isEmpty
      · simp only [own, ↓reduceIte]
        exact abort past active (c := .lockedByOther) ⟨l, rfl, holder, here ▸ word, own⟩ _

end

/-! ## Moving the bound -/

section

variable (past : s.context.upper ≤ s.runtime.clock.now)

include past

theorem extend : Candid s target found s.extend :=
  tryExtend past trivial fun _ => of_answer past fun _ _ => Progress.noConfusion

theorem afterExtension {next : AfterExtension} (rechecks : s.Rechecks next) :
    Candid s next.location? next.location? (s.afterExtension next) := by
  cases next with
  | answer => exact of_answer past fun _ _ => Progress.noConfusion
  | loadHeld l kind => exact loadHeld past
  | recheck l kind slot stamp v =>
    obtain ⟨active, here⟩ := rechecks
    have inside : slot < s.runtime.table.size := here ▸ LockTable.slotOf_lt_size _ l
    simp only [afterExtension_recheck, LockTable.load_of_lt inside]
    split
    · next unchanged => exact finishRead past rfl here unchanged
    · exact loadFree past active rfl rfl here

omit past in
/-- The bound has moved when the call goes on. -/
theorem extended {candidate : Nat} {next : AfterExtension} (past : candidate ≤ s.runtime.clock.now)
    (rechecks : s.Rechecks next) : Candid ⟨s.runtime, { s.context with upper := candidate }⟩ next.location?
      next.location? (s.resume (.extend candidate next)) := by
  refine afterExtension past ?_
  cases next <;> exact rechecks

/-! ## Committing and giving up -/

theorem finishCommit {t : Scope} (same : s.context.SameReads t.context) (wroteNothing : Bool) :
    Candid s target found (t.finishCommit wroteNothing) := by
  have same : s.context.SameReads { t.context with phase := .committed } :=
    ⟨same.lower, same.upper, same.reads, same.window⟩
  unfold Scope.finishCommit
  dsimp only
  split
  · exact of_same past same (fun active => absurd active Phase.noConfusion) fun _ _ => Progress.noConfusion
  · exact of_same past ⟨same.lower, same.upper, same.reads, same.window⟩
      (fun active => absurd active Phase.noConfusion) fun _ _ => Progress.noConfusion

theorem storeWrites (active : s.context.phase = .active) (clock : Clock) (stamp : Nat) :
    Candid s target found (Scope.storeWrites ⟨{ s.runtime with clock }, s.context⟩ stamp) := by
  have same : s.context.SameReads s.context := ⟨rfl, rfl, rfl, rfl⟩
  unfold Scope.storeWrites
  dsimp only
  split
  · next f failed =>
    refine of_same past ⟨rfl, rfl, rfl, rfl⟩ (fun _ => ⟨active, ?_⟩) fun _ _ => Progress.noConfusion
    simp only [Context.isFast, RedoLog.commit_of_error failed]
  · refine finishCommit past ?_ false
    exact ⟨rfl, rfl, rfl, rfl⟩

theorem commitAt (active : s.context.phase = .active) (clock : Clock) (stamp : Nat) (site : AbortSite) :
    Candid s target found (Scope.commitAt ⟨{ s.runtime with clock }, s.context⟩ stamp site) := by
  have same : s.context.SameReads s.context := ⟨rfl, rfl, rfl, rfl⟩
  have steady : s.context.phase = .active → s.context.phase = .active ∧ s.context.isFast = s.context.isFast :=
    fun active => ⟨active, rfl⟩
  unfold Scope.commitAt
  dsimp only
  split
  · exact of_same past same steady fun _ _ => Progress.noConfusion
  · split
    · exact storeWrites past active clock stamp
    · split
      · exact of_same past same steady fun _ _ => Progress.noConfusion
      · exact storeWrites past active clock stamp
      · next failed =>
        refine ⟨.stay fun event candidate next stands => ?_, id, rfl, Nat.le_refl _, past, fun _ => Or.inl, ?_, ?_,
          fun _ _ _ => ⟨active, ?_⟩⟩
        · cases stands
        · intro event candidate next stands
          cases stands
        · intro owner block c rest stands
          cases stands
        · exact exists_of_allCurrent failed

theorem commit (site : AbortSite) : Candid s target found (s.commit site) := by
  unfold Scope.commit
  split
  · exact fault past _
  · exact of_answer past fun _ _ => Progress.noConfusion
  · exact of_answer past fun _ _ => Progress.noConfusion
  · next active =>
    split
    · exact finishCommit past ⟨rfl, rfl, rfl, rfl⟩ true
    · dsimp only
      split
      · exact of_same past ⟨rfl, rfl, rfl, rfl⟩ (fun active => ⟨active, rfl⟩) fun _ _ => Progress.noConfusion
      · exact commitAt past active _ _ site

end

end Candid

theorem sameReads_releaseWrites (s : Scope) : s.context.SameReads s.releaseWrites.2.context :=
  ⟨rfl, rfl, rfl, rfl⟩

theorem sameReads_rollback (s : Scope) : s.context.SameReads s.rollback.2.context := by
  have released := s.sameReads_releaseWrites
  unfold rollback
  split
  · split
    · next given => rwa [given] at released
    · next given =>
      rw [given] at released
      exact ⟨released.lower, released.upper, released.reads, released.window⟩
  · exact ⟨rfl, rfl, rfl, rfl⟩

/-- An attempt that is still active after a rollback is as it was. -/
theorem steady_of_rollback (active : s.rollback.2.context.phase = .active) :
    s.context.phase = .active ∧ s.rollback.2.context.isFast = s.context.isFast := by
  by_cases before : s.context.phase = .active
  · cases released : (s.context.writes.rollback s.runtime.table).1 with
    | error f =>
      have rolled : s.rollback = (.error f, s.releaseWrites.2) := by
        simp only [rollback, if_pos before, releaseWrites, released]
      rw [rolled]
      refine ⟨before, ?_⟩
      simp only [Context.isFast, releaseWrites, RedoLog.rollback_of_error released]
    | ok _ =>
      simp only [rollback, if_pos before, releaseWrites, released] at active
      cases active
  · rw [rollback_of_inactive before] at active
    exact absurd active before

namespace Candid

section

variable (past : s.context.upper ≤ s.runtime.clock.now)

include past

/-- What the context has counted before makes no difference to a rollback. -/
theorem rollback {t : Scope} (same : s.context.SameReads t.context) (phase : t.context.phase = s.context.phase)
    (fast : t.context.isFast = s.context.isFast) {a : Progress} (running : ∀ e rest, a ≠ .standing e rest) :
    Candid s target found (a, t.rollback.2) := by
  refine of_same past (same.trans t.sameReads_rollback) (fun active => ?_) running
  rw [← phase, ← fast]
  exact steady_of_rollback active

theorem finishAbort (c : Conflict) (site : AbortSite) : Candid s target found (s.finishAbort c site) := by
  unfold Scope.finishAbort
  split
  · exact fault past _
  · next tally counted =>
    let t : Scope := { s with context := { s.context with tally, lastConflict := some c } }
    have rolls : ∀ a : Progress, (∀ e rest, a ≠ .standing e rest) → Candid s target found (a, t.rollback.2) :=
      fun _ => rollback (t := t) past ⟨rfl, rfl, rfl, rfl⟩ rfl rfl
    dsimp only [t] at rolls
    split
    · next rolled =>
      rw [rolled] at rolls
      exact rolls _ fun _ _ => Progress.noConfusion
    · next rolled =>
      rw [rolled] at rolls
      cases site <;> exact rolls _ fun _ _ => Progress.noConfusion

theorem publish {a : Progress} (running : ∀ e rest, a ≠ .standing e rest) :
    Candid s target found (a, s.publish.2) := by
  obtain ⟨published, same⟩ := publish_eq s
  rw [same]
  exact of_same past ⟨rfl, rfl, rfl, rfl⟩ (fun active => ⟨active, rfl⟩) running

theorem finishGiveUp (reason : GiveUpReason) {a : Progress} (running : ∀ e rest, a ≠ .standing e rest) :
    Candid s target found (a, (s.finishGiveUp reason).2) := by
  unfold Scope.finishGiveUp
  dsimp only
  split <;> exact of_same past ⟨rfl, rfl, rfl, rfl⟩ (fun active => ⟨active, rfl⟩) running

end

end Candid

/-! ## Any call -/

/-- What is known of a call that stands still before the bound moves. -/
def Awaits (s : Scope) (rest : Pending) : Prop :=
  ∀ candidate next, rest = .extend candidate next →
    s.context.upper ≤ candidate ∧ candidate ≤ s.runtime.clock.now ∧ s.Rechecks next

namespace Candid

theorem silent {p : Except Fault Unit × Scope}
    (candid : ∀ a, (∀ e rest, a ≠ .standing e rest) → Candid s target found (a, p.2)) :
    Candid s target found (silent p) := by
  obtain ⟨a, s'⟩ := p
  cases a <;> exact candid _ fun _ _ => Progress.noConfusion

section

variable (past : s.context.upper ≤ s.runtime.clock.now)

include past

theorem perform (h : s.Holding)
    (inside : s.context.phase = .active → ∀ e, s.context.Remembers e → e.slot < s.runtime.table.size)
    {request : Request} (plain : ∀ block mode, request ≠ .start block mode) :
    Candid s request.location? request.reads? (s.perform request) := by
  cases request with
  | start block mode => exact absurd rfl (plain block mode)
  | probe l => exact probe past
  | load l kind => exact load past
  | read l kind => exact read past
  | write l v => exact write past h inside
  | commit => exact commit past .commit
  | rollback => exact silent fun _ => rollback past ⟨rfl, rfl, rfl, rfl⟩ rfl rfl
  | extend => exact extend past
  | publish => exact silent fun _ => publish past

theorem resume {rest : Pending} (waits : s.Awaits rest) (call : ∀ site, rest ≠ .failCommit site) :
    Candid ⟨s.runtime, { s.context with upper := rest.bound s.context.upper }⟩ rest.location? rest.location?
      (s.resume rest) := by
  cases rest with
  | abort c site => exact finishAbort past c site
  | failCommit site => exact absurd rfl (call site)
  | extend candidate next =>
    obtain ⟨-, past, rechecks⟩ := waits candidate next rfl
    exact extended past rechecks
  | giveUp reason report => exact silent fun _ => finishGiveUp past reason

end

end Candid

/-- Nothing is remembered of reads, and the snapshot is taken now. -/
structure Renewed (s s' : Scope) : Prop where
  lower : s'.context.lower = s.runtime.clock.now
  upper : s'.context.upper = s.runtime.clock.now
  forgets : ∀ e, ¬ s'.context.Remembers e

theorem Holding.renews (h : s.Holding) (block : Nat) (mode : Mode) :
    ∃ s', s.start block mode = (.ok (), s') ∧ Renewed s s' := by
  obtain ⟨table, -, started⟩ := h.start_eq
  refine ⟨_, started block mode, rfl, rfl, fun e remembers => ?_⟩
  rcases remembers with logged | watched
  · cases logged
  · cases watched

end Scope

end TransactionalMemory
