import TransactionalMemory.Proofs.Commits
import TransactionalMemory.Proofs.Dispatch
import TransactionalMemory.Proofs.Passes

/-! # Accesses are made of moves

A segment of a call leads from one seat to another by moves.  Every function that reads, writes or
moves the bound of the snapshot has one lemma here, which says this and what the segment adds to the
record of the attempt; the lemmas follow the functions.

The slot of a location stays a variable in these proofs wherever a lookup in the table is taken apart:
to evaluate the lookup would be to compute the hash of the location.
-/

namespace TransactionalMemory

variable {allowed : Mode → Prop} {m₀ : Memory} {d d₁ : Seat} {record : Progress → Attempt}

/-- What is left of a call that came this far. -/
def Progress.rest? : Progress → Option Pending
  | .standing _ rest => some rest
  | _ => none

theorem Phase.not_committed {p : Phase} (active : p = .active) : p ≠ .committed := by
  rw [active]
  exact Phase.noConfusion

namespace Seat

/-- The seat after a segment of a call, with another record of the attempt. -/
def after (d : Seat) (p : Progress × Scope) (attempt : Attempt) : Seat :=
  { d with runtime := p.2.runtime, context := p.2.context, pending := p.1.rest?, attempt }

/-- The record of the attempt after a read. -/
def readRecord (d : Seat) (l : Location) (kind : Kind) : Progress → Attempt
  | .answered (.value v) => d.attempt.add (.read (d.reading l kind v))
  | _ => d.attempt

def writeRecord (d : Seat) (l : Location) (v : Value) : Progress → Attempt
  | .answered .done => d.attempt.add (.write l v)
  | _ => d.attempt

/-- The record of the attempt after a call that goes on once the bound has moved. -/
def nextRecord (d : Seat) : AfterExtension → Progress → Attempt
  | .answer => fun _ => d.attempt
  | .loadHeld l kind | .recheck l kind .. => d.readRecord l kind

end Seat

/-- A segment of a call that is made of moves and does not commit. -/
structure Leads (allowed : Mode → Prop) (d : Seat) (record : Progress → Attempt)
    (p : Progress × Scope) : Prop where
  moves : Moves allowed d (d.after p (record p.1))
  uncommitted : d.context.phase = .active → p.2.context.phase ≠ .committed
  lost : p.1 = .commitLost → Pending.isAbort d.pending

theorem Pending.not_isAbort_of_free {pending : Option Pending} (free : pending = none) :
    ¬ isAbort pending := by
  rw [free]
  exact id

namespace Leads

theorem stay {p : Progress} (noAbort : ¬ Pending.isAbort d.pending)
    (noExtension : ¬ Pending.isExtension p.rest?) (ends : p ≠ .commitLost)
    (same : record p = d.attempt) : Leads allowed d record (p, d.scope) where
  moves := by
    show Moves allowed d (d.after (p, d.scope) (record p))
    rw [same]
    exact .single (.turn p.rest? noExtension fun _ abort => absurd abort noAbort)
  uncommitted := Phase.not_committed
  lost commitLost := absurd commitLost ends

theorem fault (free : d.pending = none) (f : Fault) (same : record (.faulted f) = d.attempt) :
    Leads allowed d record (.faulted f, d.scope) :=
  .stay (Pending.not_isAbort_of_free free) id Progress.noConfusion same

theorem abort (free : d.pending = none) (c : Conflict) (site : AbortSite)
    (same : ∀ e rest, record (.standing e rest) = d.attempt) :
    Leads allowed d record (d.scope.abort c site) :=
  .stay (Pending.not_isAbort_of_free free) id Progress.noConfusion (same _ _)

theorem of_moves {p : Progress × Scope} (first : Moves allowed d d₁)
    (second : Leads allowed d₁ record p) (commits : d₁.commits = d.commits)
    (readOnly : d₁.readOnly = d.readOnly) (phase : d₁.context.phase = d.context.phase)
    (free : d₁.pending = none) : Leads allowed d record p where
  moves := by
    refine first.trans ?_
    have moves := second.moves
    simp only [Seat.after] at moves ⊢
    rw [commits, readOnly] at moves
    exact moves
  uncommitted active := second.uncommitted (phase.trans active)
  lost commitLost := by
    have abort := second.lost commitLost
    rw [free] at abort
    cases abort

/-! ## Reading -/

section

variable {l : Location} {kind : Kind} {v : Value} {slot stamp : Nat}

theorem finishRead (free : d.pending = none) (active : d.context.phase = .active)
    (here : d.slotOf l = slot) (unheld : d.context.writes.stamp? slot = none)
    (word : d.runtime.table.word slot = .free stamp) (loaded : d.runtime.memory.peek l kind = .ok v) :
    Leads allowed d (d.readRecord l kind) (d.scope.finishRead l slot stamp v) := by
  subst here
  simp only [Scope.finishRead]
  split
  · next recent =>
    cases fast : d.context.isFast with
    | true =>
      rw [show d.scope.context.logRead ⟨l, d.slotOf l, stamp⟩ =
        { d.context with window := d.context.window.push ⟨l, d.slotOf l, stamp⟩ } from if_pos fast]
      exact ⟨.single (.readFast l kind v stamp free fast unheld word recent loaded),
        fun _ => Phase.not_committed active, Progress.noConfusion⟩
    | false =>
      rw [show d.scope.context.logRead ⟨l, d.slotOf l, stamp⟩ =
        { d.context with reads := d.context.reads.push ⟨l, d.slotOf l, stamp⟩ } from
          if_neg (by simp [Seat.scope, fast])]
      exact ⟨.single (.readFree l kind v stamp free fast unheld word recent loaded),
        fun _ => Phase.not_committed active, Progress.noConfusion⟩
  · exact .fault free _ rfl

theorem slide (free : d.pending = none) (active : d.context.phase = .active)
    (fast : d.context.isFast = true) (here : d.slotOf l = slot)
    (unheld : d.context.writes.stamp? slot = none) (word : d.runtime.table.word slot = .free stamp)
    (loaded : d.runtime.memory.peek l kind = .ok v) :
    Leads allowed d (d.readRecord l kind) (d.scope.slide l slot stamp v) := by
  unfold Scope.slide
  dsimp only
  split
  · exact .fault free _ rfl
  · exact .abort free _ _ fun _ _ => rfl
  · next current =>
    -- The whole window is current, so the bound can slide before the read is logged.
    have first : Moves allowed d (d.withContext { d.context with upper := d.runtime.clock.now }) :=
      .single (.slide free fast current)
    exact .of_moves first (.finishRead free active here unheld word loaded) rfl rfl rfl free

theorem tryExtend {next : AfterExtension} {failed : Scope → Progress × Scope} (free : d.pending = none)
    (ready : d.Ready next) (faulted : ∀ f, record (.faulted f) = d.attempt)
    (standing : ∀ e rest, record (.standing e rest) = d.attempt)
    (otherwise : Leads allowed d record (failed d.scope)) :
    Leads allowed d record (d.scope.tryExtend next failed) := by
  unfold Scope.tryExtend
  dsimp only
  split
  · exact .fault free _ (faulted _)
  · next current =>
    refine ⟨?_, Phase.not_committed, Progress.noConfusion⟩
    show Moves allowed d (d.after _ (record (.standing _ _)))
    rw [standing]
    exact .single (.suspend next free current ready)
  · exact otherwise

theorem loadHeld (free : d.pending = none) (active : d.context.phase = .active)
    (held : d.context.writes.stamp? (d.slotOf l) = some stamp)
    (unlogged : d.context.writes.value? (d.slotOf l) l = none) (recent : stamp ≤ d.context.upper) :
    Leads allowed d (d.readRecord l kind) (d.scope.loadHeld l kind) := by
  simp only [Scope.loadHeld]
  split
  · exact .fault free _ rfl
  · next v loaded =>
    exact ⟨.single (.readHeld l kind v stamp free held unlogged recent loaded),
      fun _ => Phase.not_committed active, Progress.noConfusion⟩

theorem loadFree (free : d.pending = none) (active : d.context.phase = .active)
    (here : d.slotOf l = slot) (unheld : d.context.writes.stamp? slot = none) :
    Leads allowed d (d.readRecord l kind) (d.scope.loadFree l kind slot) := by
  have inside : slot < d.scope.runtime.table.size := here ▸ LockTable.slotOf_lt_size _ l
  rw [Scope.loadFree_eq]
  rw [LockTable.check_of_lt inside]
  cases word : d.scope.runtime.table.word slot with
  | held holder =>
    by_cases own : holder = d.scope.context.owner
    · simp only [own, ↓reduceIte]
      exact .fault free _ rfl
    · simp only [own, ↓reduceIte]
      exact .abort free _ _ fun _ _ => rfl
  | free stamp =>
    dsimp only
    split
    · exact .fault free _ rfl
    · next v loaded =>
      split
      · exact .finishRead free active here unheld word loaded
      · split
        · next fast => exact .slide free active fast here unheld word loaded
        · next slow =>
          have slow : d.context.isFast = false := Bool.eq_false_iff.mpr slow
          exact .tryExtend free ⟨active, slow, here.symm, unheld, word, loaded⟩ (fun _ => rfl)
            (fun _ _ => rfl) (.abort free _ _ fun _ _ => rfl)

theorem obstacle?_eq_none {s : Scope} (h : s.obstacle? = none) : s.context.phase = .active := by
  unfold Scope.obstacle? at h
  split at h <;> first | assumption | cases h

theorem obstacle {p : Progress} (free : d.pending = none) (h : d.scope.obstacle? = some p)
    (aborted : ∀ c, record (.answered (.aborted c)) = d.attempt)
    (faulted : ∀ f, record (.faulted f) = d.attempt) : Leads allowed d record (p, d.scope) := by
  unfold Scope.obstacle? at h
  split at h
  · cases h
  · cases h
    exact .stay (Pending.not_isAbort_of_free free) id Progress.noConfusion (aborted _)
  · cases h
    exact .fault free _ (faulted _)
  · cases h
    exact .fault free _ (faulted _)
  · cases h
    exact .fault free _ (faulted _)

theorem load (free : d.pending = none) :
    Leads allowed d (d.readRecord l kind) (d.scope.load l kind) := by
  unfold Scope.load
  split
  · next p ended => exact .obstacle free ended (fun _ => rfl) fun _ => rfl
  · next none =>
    have active : d.context.phase = .active := obstacle?_eq_none none
    dsimp only
    split
    · next unheld => exact .loadFree free active rfl unheld
    · next stamp held =>
      split
      · next v logged =>
        exact ⟨.single (.readOwn l kind v free logged), fun _ => Phase.not_committed active,
          Progress.noConfusion⟩
      · next unlogged =>
        split
        · next recent => exact .loadHeld free active held unlogged recent
        · refine .tryExtend free ⟨active, ?_, unlogged⟩ (fun _ => rfl) (fun _ _ => rfl)
            (.abort free _ _ fun _ _ => rfl)
          exact Option.isSome_iff_exists.mpr ⟨stamp, held⟩

theorem probe (free : d.pending = none) (aborted : ∀ c, record (.answered (.aborted c)) = d.attempt)
    (faulted : ∀ f, record (.faulted f) = d.attempt)
    (standing : ∀ e rest, record (.standing e rest) = d.attempt)
    (done : record (.answered .done) = d.attempt) : Leads allowed d record (d.scope.probe l) := by
  simp only [Scope.probe]
  generalize d.scope.runtime.table.check _ _ = checked
  cases ended : d.scope.obstacle? with
  | some p => exact .obstacle free ended aborted faulted
  | none =>
    cases checked with
    | error f => exact .fault free _ (faulted _)
    | ok looked =>
      cases looked with
      | error contention => exact .abort free _ _ standing
      | ok word => exact .stay (Pending.not_isAbort_of_free free) id Progress.noConfusion done

theorem probe_snd (s : Scope) (l : Location) : (s.probe l).2 = s := by
  simp only [Scope.probe]
  generalize s.runtime.table.check _ _ = checked
  cases s.obstacle? with
  | some p => rfl
  | none =>
    cases checked with
    | error f => rfl
    | ok looked => cases looked <;> rfl

theorem read (free : d.pending = none) :
    Leads allowed d (d.readRecord l kind) (d.scope.read l kind) := by
  simp only [Scope.read]
  split
  · next s done =>
    have same := probe_snd d.scope l
    rw [done] at same
    rw [show s = d.scope from same]
    exact .load free
  · exact .probe free (fun _ => rfl) (fun _ => rfl) (fun _ _ => rfl) rfl

/-! ## Writing -/

theorem isElastic_iff {mode : Mode} : mode.isElastic = true ↔ mode = .elastic := by
  cases mode <;> simp [Mode.isElastic]

theorem writeTaken (h : Sound allowed m₀ d) (free : d.pending = none)
    (active : d.context.phase = .active) (exist : d.runtime.memory.Has l)
    (word : d.runtime.table.word (d.slotOf l) = .free stamp) :
    Leads allowed d (d.writeRecord l v)
      (Scope.writeTaken (d.take l d.context.writes).scope l (d.slotOf l) stamp v) := by
  have unended := Phase.not_committed active
  obtain ⟨writes, logged⟩ := RedoLog.append_some d.context.writes (d.slotOf l) l v stamp
  have slots : ∀ e ∈ d.context.window.entries, e.slot < (d.take l writes).runtime.table.size := by
    intro e member
    rw [(h.dated.watched e member).slot]
    exact LockTable.slotOf_lt_size _ _
  simp only [Scope.writeTaken]
  rw [show (d.take l d.context.writes).scope.context.writes.append (d.slotOf l) l v (some stamp) =
    .ok writes from logged]
  dsimp only
  split
  · next stale =>
    simp only [Bool.and_eq_true, decide_eq_true_eq] at stale
    exact ⟨.single (.writeStale l v stamp writes _ free active exist word logged (Or.inr stale)),
      fun _ => unended, Progress.noConfusion⟩
  · split
    · next elastic =>
      have elastic : d.context.mode = .elastic := isElastic_iff.mp elastic
      obtain ⟨b, checked⟩ := allCurrent_ok d.context.owner writes slots
      replace checked : (d.take l d.context.writes).scope.context.window.validate
        (d.take l d.context.writes).scope.runtime.table (d.take l d.context.writes).scope.context.owner
          writes = .ok b := checked
      rw [checked]
      cases b with
      | false =>
        exact ⟨.single (.writeStale l v stamp writes _ free active exist word logged (Or.inl elastic)),
          fun _ => unended, Progress.noConfusion⟩
      | true =>
        dsimp only
        split
        · next fast =>
          exact ⟨.single (.writeFirst l v stamp writes free active exist fast word logged),
            fun _ => unended, Progress.noConfusion⟩
        · next slow =>
          exact ⟨.single (.writeFree l v stamp writes free active exist (Bool.eq_false_iff.mpr slow) word
            logged), fun _ => unended, Progress.noConfusion⟩
    · next regular =>
      have slow : d.context.isFast = false := by
        simp only [Bool.not_eq_true] at regular
        show (d.context.mode.isElastic && d.context.writes.isEmpty) = false
        rw [show d.context.mode.isElastic = false from regular, Bool.false_and]
      exact ⟨.single (.writeFree l v stamp writes free active exist slow word logged), fun _ => unended,
        Progress.noConfusion⟩

theorem write (h : Sound allowed m₀ d) (free : d.pending = none) (exist : d.runtime.memory.Has l) :
    Leads allowed d (d.writeRecord l v) (d.scope.write l v) := by
  obtain ⟨slot, here⟩ : ∃ slot, d.scope.runtime.table.slotOf l = slot := ⟨_, rfl⟩
  have inside : slot < d.scope.runtime.table.size := here ▸ LockTable.slotOf_lt_size _ l
  unfold Scope.write
  rw [here]
  cases ended : d.scope.obstacle? with
  | some p => exact .obstacle free ended (fun _ => rfl) fun _ => rfl
  | none =>
    have active : d.context.phase = .active := obstacle?_eq_none ended
    dsimp only
    rw [LockTable.acquire_of_lt inside]
    cases word : d.scope.runtime.table.word slot with
    | free stamp =>
      subst here
      exact writeTaken h free active exist word
    | held holder =>
      by_cases own : holder = d.scope.context.owner
      · simp only [own, ↓reduceIte]
        split
        · exact .fault free _ rfl
        · next writes logged =>
          subst here
          exact ⟨.single (.writeHeld l v writes free exist (own ▸ word) logged),
            fun _ => Phase.not_committed active, Progress.noConfusion⟩
      · simp only [own, ↓reduceIte]
        exact .abort free _ _ fun _ _ => rfl

/-! ## Moving the bound -/

theorem recheck (free : d.pending = none) (active : d.context.phase = .active) (here : d.slotOf l = slot)
    (unheld : d.context.writes.stamp? slot = none)
    (loaded : d.runtime.table.word slot = .free stamp → d.runtime.memory.peek l kind = .ok v) :
    Leads allowed d (d.readRecord l kind) (d.scope.afterExtension (.recheck l kind slot stamp v)) := by
  have inside : slot < d.scope.runtime.table.size := here ▸ LockTable.slotOf_lt_size _ l
  rw [Scope.afterExtension_recheck, LockTable.load_of_lt inside]
  dsimp only
  split
  · next word => exact .finishRead free active here unheld word (loaded word)
  · exact .loadFree free active here unheld

end

theorem extend (h : Sound allowed m₀ d) {candidate : Nat} {next : AfterExtension}
    (waiting : d.pending = some (.extend candidate next)) :
    Leads allowed d (d.nextRecord next) (d.scope.resume (.extend candidate next)) := by
  have awaited := (h.waits candidate next waiting).awaited
  have adopted : Moves allowed d
      { d.withContext { d.context with upper := candidate } with pending := none } :=
    .single (.adopt candidate next waiting)
  simp only [Scope.resume]
  cases next with
  | answer => exact .of_moves adopted (.stay id id Progress.noConfusion rfl) rfl rfl rfl rfl
  | loadHeld l kind =>
    obtain ⟨active, unlogged, stamp, held, recent⟩ := awaited
    exact .of_moves adopted (.loadHeld rfl active held unlogged recent) rfl rfl rfl rfl
  | recheck l kind slot stamp v =>
    obtain ⟨active, slow, here, unheld, recent, has, value⟩ := awaited
    refine .of_moves adopted (.recheck rfl active here.symm unheld ?_) rfl rfl rfl rfl
    intro word
    -- The slot has the stamp that it had when the value was loaded, so the field has the value.
    have version : version d.commits (d.slotOf l) = stamp := h.ledger.free _ _ (here ▸ word)
    have same : d.content m₀ stamp l = d.runtime.memory.words l :=
      h.ledger.contentAt_eq (Nat.le_of_eq version)
    rw [same] at value
    exact Memory.peek_eq_ok_iff.mpr ⟨has, value⟩

end Leads

end TransactionalMemory
