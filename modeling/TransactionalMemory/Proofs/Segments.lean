import TransactionalMemory.Proofs.Attempts
import TransactionalMemory.Proofs.Custody
import TransactionalMemory.Proofs.Passes

/-! # What a segment of a call leaves behind

A segment of a call works on its own context, and it does to the slots of the context one of the things
in `Scope.Handles`.  A segment that comes to stand at an event has changed little: nothing is stored,
and slots are taken but not given back.  That an attempt has failed is never told by a segment that
finds the attempt active, except one that ends an abort.  Every function has one lemma that says
all this, and the lemmas follow the functions.

An attempt is given up in one way only, whatever the reason: its slots go back under their old stamps
and its writes are forgotten (`Scope.Withdrawn`).
-/

namespace TransactionalMemory

/-- The attempt is reported to have failed. -/
def Progress.isFailure : Progress → Bool
  | answered (.aborted _) | answered (.verdict false) | commitLost => true
  | _ => false

/-- The event of a block that gives up, and not of an attempt. -/
def Event.isGaveUp : Event → Bool
  | gaveUp .. => true
  | _ => false

def Pending.isGiveUp : Pending → Bool
  | giveUp .. => true
  | _ => false

/-- What the one who asked for it is told once an abort has ended. -/
def AbortSite.report (c : Conflict) : AbortSite → Progress
  | access => .answered (.aborted c)
  | commit => .answered (.verdict false)
  | block => .commitLost

namespace Scope

variable {s s₁ s' : Scope} {p : Progress × Scope} {ticks : Nat}

/-- A context has worked on its own slots. -/
structure Works (s s' : Scope) : Prop where
  owner : s'.context.owner = s.context.owner
  nextOwner : s'.runtime.nextOwner = s.runtime.nextOwner
  handles : Handles s s'

/-- Nothing is stored or given back, and the clock has moved by some ticks. -/
structure Quiet (s : Scope) (ticks : Nat) (s' : Scope) : Prop where
  memory : s'.runtime.memory = s.runtime.memory
  clock : s'.runtime.clock.now = s.runtime.clock.now + ticks
  phase : s'.context.phase = s.context.phase
  slots : ∀ slot, s'.runtime.table.word slot = s.runtime.table.word slot ∨
    (∃ stamp, s.runtime.table.word slot = .free stamp) ∧
      s'.runtime.table.word slot = .held s.context.owner

/-- A segment of an access or of a commit. -/
structure Segment (s : Scope) (ticks : Nat) (p : Progress × Scope) : Prop extends Works s p.2 where
  standing : ∀ e rest, p.1 = .standing e rest →
    Quiet s ticks p.2 ∧ e.isGaveUp = false ∧ rest.isGiveUp = false
  steady : s.context.phase = .active → p.1.isFailure = false

/-- The attempt has been given up: its slots are given back under their old stamps, its writes are
    forgotten, and nothing else of the runtime has changed. -/
structure Withdrawn (s s' : Scope) : Prop where
  owner : s'.context.owner = s.context.owner
  nextOwner : s'.runtime.nextOwner = s.runtime.nextOwner
  memory : s'.runtime.memory = s.runtime.memory
  clock : s'.runtime.clock = s.runtime.clock
  given : RedoLog.GivenBack s.context.writes id s.runtime.table s'.runtime.table
  empty : s'.context.writes = {}

theorem Works.keep {c : Context} {r : Runtime} (owner : c.owner = s.context.owner)
    (nextOwner : r.nextOwner = s.runtime.nextOwner) (table : r.table = s.runtime.table)
    (writes : c.writes = s.context.writes) (phase : c.phase = s.context.phase) : Works s ⟨r, c⟩ where
  owner := owner
  nextOwner := nextOwner
  handles := .keep table writes phase

theorem Works.refl (s : Scope) : Works s s := .keep rfl rfl rfl rfl rfl

theorem Quiet.of_same {c : Context} (phase : c.phase = s.context.phase) : Quiet s 0 ⟨s.runtime, c⟩ where
  memory := rfl
  clock := rfl
  phase := phase
  slots _ := Or.inl rfl

theorem Handles.of_scope (c : Handles s₁ s') (table : s₁.runtime.table = s.runtime.table)
    (owner : s₁.context.owner = s.context.owner) (writes : s₁.context.writes = s.context.writes)
    (phase : s₁.context.phase = s.context.phase) : Handles s s' := by
  cases c with
  | keep table' writes' phase' =>
    exact .keep (table'.trans table) (writes'.trans writes) (phase'.trans phase)
  | log l v active table' held logged =>
    rw [table, owner] at held
    rw [table, writes] at logged
    exact .log l v active (table'.trans table) held logged
  | take l v stamp active free table' logged =>
    rw [table] at free
    rw [table, owner] at table'
    rw [table, writes] at logged
    exact .take l v stamp active free table' logged
  | giveBack stampOf given small empty =>
    rw [table, writes] at given
    rw [writes] at small
    exact .giveBack stampOf given small empty

namespace Segment

/-- Once the context has only changed in what it remembers of its reads, a segment goes on from there. -/
theorem of_context {c : Context} (g : Segment ⟨s.runtime, c⟩ ticks p) (owner : c.owner = s.context.owner)
    (writes : c.writes = s.context.writes) (phase : c.phase = s.context.phase) : Segment s ticks p where
  owner := g.owner.trans owner
  nextOwner := g.nextOwner
  handles := g.handles.of_scope rfl owner writes phase
  standing e rest stands := by
    obtain ⟨quiet, call⟩ := g.standing e rest stands
    refine ⟨⟨quiet.memory, quiet.clock, quiet.phase.trans phase, ?_⟩, call⟩
    rw [← owner]
    exact quiet.slots
  steady active := g.steady (phase.trans active)

/-- A segment that has done nothing to the runtime, and to the context only in what it remembers of its
    reads. -/
theorem of_reads {a : Progress} {c : Context} (owner : c.owner = s.context.owner)
    (writes : c.writes = s.context.writes) (phase : c.phase = s.context.phase)
    (running : ∀ e rest, a ≠ .standing e rest) (steady : s.context.phase = .active → a.isFailure = false) :
    Segment s ticks (a, ⟨s.runtime, c⟩) where
  owner := owner
  nextOwner := rfl
  handles := .keep rfl writes phase
  standing e rest stands := absurd stands (running e rest)
  steady := steady

theorem stay {a : Progress} (running : ∀ e rest, a ≠ .standing e rest)
    (steady : s.context.phase = .active → a.isFailure = false) : Segment s ticks (a, s) :=
  of_reads rfl rfl rfl running steady

theorem fault (f : Fault) : Segment s ticks (.faulted f, s) :=
  stay (fun _ _ => Progress.noConfusion) fun _ => rfl

theorem value (v : Value) : Segment s ticks (.answered (.value v), s) :=
  stay (fun _ _ => Progress.noConfusion) fun _ => rfl

theorem stand {e : Event} {rest : Pending} (event : e.isGaveUp = false) (call : rest.isGiveUp = false) :
    Segment s 0 (.standing e rest, s) where
  owner := rfl
  nextOwner := rfl
  handles := .refl s
  standing _ _ stands := by
    cases stands
    exact ⟨.of_same rfl, event, call⟩
  steady _ := rfl

theorem abort (s : Scope) (c : Conflict) (site : AbortSite) : Segment s 0 (s.abort c site) :=
  stand rfl rfl

/-! ## Reading -/

section

variable {l : Location} {kind : Kind} {v : Value} {slot stamp : Nat}

theorem finishRead (s : Scope) : Segment s ticks (s.finishRead l slot stamp v) := by
  unfold Scope.finishRead
  split
  · refine of_reads ?_ ?_ ?_ (fun _ _ => Progress.noConfusion) fun _ => rfl
    all_goals
      unfold Context.logRead
      split <;> rfl
  · exact .fault _

theorem slide (s : Scope) : Segment s 0 (s.slide l slot stamp v) := by
  unfold Scope.slide
  dsimp only
  split
  · exact .fault _
  · exact .abort s _ _
  · exact of_context (finishRead _) rfl rfl rfl

theorem tryExtend {next : AfterExtension} {failed : Scope → Progress × Scope}
    (otherwise : Segment s 0 (failed s)) : Segment s 0 (s.tryExtend next failed) := by
  unfold Scope.tryExtend
  dsimp only
  split
  · exact .fault _
  · exact .stand rfl rfl
  · exact otherwise

theorem loadHeld (s : Scope) : Segment s ticks (s.loadHeld l kind) := by
  unfold Scope.loadHeld
  split
  · exact .fault _
  · exact .value _

theorem loadFree (s : Scope) : Segment s 0 (s.loadFree l kind slot) := by
  rw [Scope.loadFree_eq]
  split
  · exact .fault _
  · exact .abort s _ _
  · exact .fault _
  · split
    · exact .fault _
    · split
      · exact .finishRead s
      · split
        · exact .slide s
        · exact .tryExtend (.abort s _ _)

theorem obstacle {a : Progress} (h : s.obstacle? = some a) : Segment s ticks (a, s) := by
  have inactive : s.context.phase ≠ .active := fun active => by
    simp [obstacle?, active] at h
  refine .stay ?_ fun active => absurd active inactive
  unfold obstacle? at h
  intro e rest stands
  split at h <;> cases h <;> cases stands

theorem load (s : Scope) : Segment s 0 (s.load l kind) := by
  unfold Scope.load
  split
  · next ended => exact .obstacle ended
  · dsimp only
    split
    · exact .loadFree s
    · split
      · exact .value _
      · split
        · exact .loadHeld s
        · exact .tryExtend (.abort s _ _)

theorem probe (s : Scope) : Segment s 0 (s.probe l) := by
  simp only [Scope.probe]
  generalize s.runtime.table.check _ _ = checked
  cases ended : s.obstacle? with
  | some a => exact .obstacle ended
  | none =>
    cases checked with
    | error f => exact .fault f
    | ok looked =>
      cases looked with
      | error contention => exact .abort s _ _
      | ok word => exact .stay (fun _ _ => Progress.noConfusion) fun _ => rfl

theorem read (s : Scope) : Segment s 0 (s.read l kind) := by
  unfold Scope.read
  split
  · next s₁ done =>
    have same := Leads.probe_snd s l
    rw [done] at same
    rw [show s₁ = s from same]
    exact .load s
  · exact .probe s

/-! ## Writing -/

/-- A slot has been taken, and the write under it is logged. -/
structure Taken (s : Scope) (l : Location) (v : Value) (stamp : Nat) (s' : Scope) : Prop where
  free : s.runtime.table.word (s.runtime.table.slotOf l) = .free stamp
  runtime : s'.runtime = { s.runtime with
    table := s.runtime.table.set (s.runtime.table.slotOf l) (.held s.context.owner) }
  owner : s'.context.owner = s.context.owner
  active : s.context.phase = .active
  phase : s'.context.phase = s.context.phase
  logged : s.context.writes.append (s.runtime.table.slotOf l) l v (some stamp) = .ok s'.context.writes

theorem Taken.handles (t : Taken s l v stamp s') : Handles s s' :=
  .take l v stamp (t.phase.trans t.active) t.free (by rw [t.runtime]) t.logged

theorem Taken.quiet (t : Taken s l v stamp s') : Quiet s 0 s' where
  memory := by rw [t.runtime]
  clock := by rw [t.runtime]; rfl
  phase := t.phase
  slots slot := by
    rw [t.runtime]
    show LockTable.word (LockTable.set _ _ _) slot = _ ∨ _ ∧ LockTable.word (LockTable.set _ _ _) slot = _
    rw [LockTable.word_set]
    split
    · next same => exact Or.inr ⟨⟨stamp, same ▸ t.free⟩, rfl⟩
    · exact Or.inl rfl

theorem of_taken {a : Progress} (t : Taken s l v stamp s') (steady : a.isFailure = false)
    (call : ∀ e rest, a = .standing e rest → e.isGaveUp = false ∧ rest.isGiveUp = false) :
    Segment s 0 (a, s') where
  owner := t.owner
  nextOwner := by rw [t.runtime]
  handles := t.handles
  standing e rest stands := ⟨t.quiet, call e rest stands⟩
  steady _ := steady

theorem writeTaken {t : Scope} (active : s.context.phase = .active)
    (free : s.runtime.table.word (s.runtime.table.slotOf l) = .free stamp)
    (runtime : t.runtime = { s.runtime with
      table := s.runtime.table.set (s.runtime.table.slotOf l) (.held s.context.owner) })
    (context : t.context = s.context) :
    Segment s 0 (t.writeTaken l (s.runtime.table.slotOf l) stamp v) := by
  obtain ⟨writes, logged⟩ := RedoLog.append_some s.context.writes (s.runtime.table.slotOf l) l v stamp
  have taken : Taken s l v stamp { t with context := { t.context with writes } } :=
    ⟨free, runtime, by rw [context], active, by rw [context], logged⟩
  unfold Scope.writeTaken
  rw [context, logged]
  rw [context] at taken
  dsimp only
  split
  · exact .of_taken taken rfl fun _ _ stands => by cases stands; exact ⟨rfl, rfl⟩
  · split
    · split
      · exact .of_taken taken rfl fun _ _ => Progress.noConfusion
      · exact .of_taken taken rfl fun _ _ stands => by cases stands; exact ⟨rfl, rfl⟩
      · split
        · exact .of_taken ⟨taken.free, taken.runtime, taken.owner, active, taken.phase, taken.logged⟩ rfl
            fun _ _ => Progress.noConfusion
        · exact .of_taken taken rfl fun _ _ => Progress.noConfusion
    · exact .of_taken taken rfl fun _ _ => Progress.noConfusion

theorem write (s : Scope) : Segment s 0 (s.write l v) := by
  obtain ⟨slot, here⟩ : ∃ slot, s.runtime.table.slotOf l = slot := ⟨_, rfl⟩
  have inside : slot < s.runtime.table.size := here ▸ LockTable.slotOf_lt_size _ l
  unfold Scope.write
  rw [here]
  cases ended : s.obstacle? with
  | some a => exact .obstacle ended
  | none =>
    have active : s.context.phase = .active := Leads.obstacle?_eq_none ended
    dsimp only
    rw [LockTable.acquire_of_lt inside]
    cases word : s.runtime.table.word slot with
    | free stamp =>
      subst here
      exact writeTaken active word rfl rfl
    | held holder =>
      by_cases own : holder = s.context.owner
      · simp only [own, ↓reduceIte]
        split
        · exact .fault _
        · next writes logged =>
          subst here
          exact
            { owner := rfl
              nextOwner := rfl
              handles := .log l v active rfl (own ▸ word) logged
              standing := fun _ _ => Progress.noConfusion
              steady := fun _ => rfl }
      · simp only [own, ↓reduceIte]
        exact .abort s _ _

end

/-! ## Moving the bound -/

theorem afterExtension (s : Scope) (next : AfterExtension) : Segment s 0 (s.afterExtension next) := by
  cases next with
  | answer => exact .stay (fun _ _ => Progress.noConfusion) fun _ => rfl
  | loadHeld l kind => exact .loadHeld s
  | recheck l kind slot stamp v =>
    rw [afterExtension_recheck]
    split
    · exact .fault _
    · split
      · exact .finishRead s
      · exact .loadFree s

theorem extended (s : Scope) (candidate : Nat) (next : AfterExtension) :
    Segment s 0 (s.resume (.extend candidate next)) := by
  have moved := afterExtension ⟨s.runtime, { s.context with upper := candidate }⟩ next
  exact moved.of_context rfl rfl rfl

/-! ## Committing -/

theorem finishCommit {s t : Scope} (owner : t.context.owner = s.context.owner)
    (nextOwner : t.runtime.nextOwner = s.runtime.nextOwner) {stampOf : Nat → Nat}
    (given : RedoLog.GivenBack s.context.writes stampOf s.runtime.table t.runtime.table)
    (small : ∀ slot stamp, s.context.writes.stamp? slot = some stamp → stampOf stamp < lockBit)
    (empty : t.context.writes = {}) (wroteNothing : Bool) :
    Segment s ticks (t.finishCommit wroteNothing) := by
  unfold Scope.finishCommit
  dsimp only
  split
  all_goals exact
    { owner, nextOwner
      handles := .giveBack stampOf given small empty
      standing := fun _ _ => Progress.noConfusion
      steady := fun _ => rfl }

theorem storeWrites (h : s.Holding) (clock : Clock) (stamp : Nat) :
    Segment s ticks (Scope.storeWrites ⟨{ s.runtime with clock }, s.context⟩ stamp) := by
  unfold Scope.storeWrites
  rcases h.wellFormed.commit_cases h.held stamp s.runtime.memory with
    ⟨f, m', failed⟩ | ⟨t', m', stored, given, small⟩
  · dsimp only
    rw [failed]
    exact
      { owner := rfl
        nextOwner := rfl
        handles := .keep rfl rfl rfl
        standing := fun _ _ => Progress.noConfusion
        steady := fun _ => rfl }
  · dsimp only
    rw [stored]
    exact .finishCommit (s := s) (t := ⟨{ s.runtime with clock, table := t', memory := m' },
      { s.context with writes := {} }⟩) rfl rfl given small rfl false

theorem commitAt (h : s.Holding) {clock : Clock} (next : clock.now = s.runtime.clock.now + 1) (stamp : Nat)
    (site : AbortSite) :
    Segment s 1 (Scope.commitAt ⟨{ s.runtime with clock }, s.context⟩ stamp site) := by
  have ticked : ∀ {a : Progress} (_ : ∀ e rest, a = .standing e rest →
      e.isGaveUp = false ∧ rest.isGiveUp = false) (_ : a.isFailure = false),
      Segment s 1 (a, ⟨{ s.runtime with clock }, s.context⟩) := fun call steady =>
    { owner := rfl
      nextOwner := rfl
      handles := .keep rfl rfl rfl
      standing := fun e rest stands => ⟨⟨rfl, next, rfl, fun _ => Or.inl rfl⟩, call e rest stands⟩
      steady := fun _ => steady }
  unfold Scope.commitAt
  dsimp only
  split
  · exact ticked (fun _ _ => Progress.noConfusion) rfl
  · split
    · exact .storeWrites h clock stamp
    · split
      · exact ticked (fun _ _ => Progress.noConfusion) rfl
      · exact .storeWrites h clock stamp
      · exact ticked (fun _ _ stands => by cases stands; exact ⟨rfl, rfl⟩) rfl

theorem commit (h : s.Holding) (site : AbortSite) : Segment s 1 (s.commit site) := by
  unfold Scope.commit
  split
  · exact .fault _
  · next ended =>
    exact .stay (fun _ _ => Progress.noConfusion) fun active => by rw [ended] at active; cases active
  · next ended =>
    exact .stay (fun _ _ => Progress.noConfusion) fun active => by rw [ended] at active; cases active
  · split
    · next nothing =>
      have empty := RedoLog.eq_empty nothing
      have given : RedoLog.GivenBack s.context.writes id s.runtime.table s.runtime.table :=
        ⟨rfl, fun slot => by rw [empty]; rfl⟩
      exact .finishCommit rfl rfl given h.small empty true
    · simp only [Clock.advance]
      split
      · exact
          { owner := rfl
            nextOwner := rfl
            handles := .keep rfl rfl rfl
            standing := fun _ _ => Progress.noConfusion
            steady := fun _ => rfl }
      · next stamp counted =>
        obtain ⟨-, fits⟩ := eq_of_counter counted
        exact .commitAt h (Nat.mod_eq_of_lt fits) stamp site

end Segment

/-! ## What a commit answers -/

section

variable {a : Reply}

theorem answered_finishCommit {wroteNothing : Bool} (answered : (s.finishCommit wroteNothing).1 = .answered a) :
    a = .verdict true := by
  unfold finishCommit at answered
  dsimp only at answered
  split at answered
  · cases answered
  · cases answered
    rfl

theorem answered_storeWrites {stamp : Nat} (answered : (s.storeWrites stamp).1 = .answered a) :
    a = .verdict true := by
  unfold storeWrites at answered
  dsimp only at answered
  split at answered
  · cases answered
  · exact answered_finishCommit answered

theorem answered_commitAt {stamp : Nat} {site : AbortSite}
    (answered : (s.commitAt stamp site).1 = .answered a) : a = .verdict true := by
  unfold commitAt at answered
  dsimp only at answered
  split at answered
  · cases answered
  · split at answered
    · exact answered_storeWrites answered
    · split at answered
      · cases answered
      · exact answered_storeWrites answered
      · cases answered

/-- The first segment of a commit that finds the attempt active can only tell of success. -/
theorem answered_commit {site : AbortSite} (active : s.context.phase = .active)
    (answered : (s.commit site).1 = .answered a) : a = .verdict true := by
  unfold commit at answered
  rw [active] at answered
  dsimp only at answered
  split at answered
  · exact answered_finishCommit answered
  · split at answered
    · cases answered
    · exact answered_commitAt answered

end

/-! ## Giving an attempt up -/

theorem Withdrawn.refl (empty : s.context.writes = {}) : Withdrawn s s where
  owner := rfl
  nextOwner := rfl
  memory := rfl
  clock := rfl
  given := ⟨rfl, fun slot => by rw [empty]; rfl⟩
  empty := empty

/-- What the context had counted, or remembered of a conflict, makes no difference. -/
theorem Withdrawn.of_context {c : Context} (w : Withdrawn ⟨s.runtime, c⟩ s')
    (owner : c.owner = s.context.owner) (writes : c.writes = s.context.writes) : Withdrawn s s' where
  owner := w.owner.trans owner
  nextOwner := w.nextOwner
  memory := w.memory
  clock := w.clock
  given := writes ▸ w.given
  empty := w.empty

theorem Withdrawn.works (w : Withdrawn s s') (h : s.Holding) : Works s s' where
  owner := w.owner
  nextOwner := w.nextOwner
  handles := .giveBack id w.given h.small w.empty

namespace Holding

theorem releaseWrites (h : s.Holding) : ∃ table,
    s.releaseWrites = (.ok (), ⟨{ s.runtime with table }, { s.context with writes := {} }⟩) ∧
      RedoLog.GivenBack s.context.writes id s.runtime.table table := by
  obtain ⟨table, back, given⟩ := h.wellFormed.rollback h.held h.small
  refine ⟨table, ?_, given⟩
  unfold Scope.releaseWrites
  rw [back]

theorem start_eq (h : s.Holding) :
    ∃ table, RedoLog.GivenBack s.context.writes id s.runtime.table table ∧
      ∀ block mode, s.start block mode = (.ok (),
        fresh ⟨{ s.runtime with table }, { s.context with writes := {} }⟩ block mode) := by
  unfold Scope.start
  split
  · next nothing =>
    have empty := RedoLog.eq_empty nothing
    refine ⟨s.runtime.table, (Withdrawn.refl empty).given, fun block mode => ?_⟩
    rw [← empty]
  · obtain ⟨table, released, given⟩ := h.releaseWrites
    rw [released]
    exact ⟨table, given, fun _ _ => rfl⟩

theorem start (h : s.Holding) (block : Nat) (mode : Mode) :
    ∃ s', s.start block mode = (.ok (), s') ∧ Withdrawn s s' := by
  obtain ⟨table, given, started⟩ := h.start_eq
  exact ⟨_, started block mode, rfl, rfl, rfl, rfl, given, rfl⟩

theorem rollback (h : s.Holding) : ∃ s', s.rollback = (.ok (), s') ∧ Withdrawn s s' ∧
    s'.context.lastConflict = s.context.lastConflict ∧ s'.context.phase ≠ .active ∧
    (s.context.phase = .active → s'.context.phase = .aborted) := by
  unfold Scope.rollback
  split
  · obtain ⟨table, released, given⟩ := h.releaseWrites
    rw [released]
    exact ⟨_, rfl, ⟨rfl, rfl, rfl, rfl, given, rfl⟩, rfl, Phase.noConfusion, fun _ => rfl⟩
  · next inactive =>
    exact ⟨s, rfl, .refl (h.idle inactive), rfl, inactive, fun active => absurd active inactive⟩

/-- What the context has counted, or remembers of a conflict, makes no difference to a rollback. -/
theorem rollback_counted (h : s.Holding) (tally : Tally) (conflict : Option Conflict) :
    ∃ s', Scope.rollback { s with context := { s.context with tally, lastConflict := conflict } } = (.ok (), s') ∧
      Withdrawn s s' ∧ s'.context.lastConflict = conflict ∧
      (s.context.phase = .active → s'.context.phase = .aborted) := by
  have counted : Holding { s with context := { s.context with tally, lastConflict := conflict } } :=
    h.keep rfl rfl rfl rfl
  obtain ⟨s', rolled, withdrawn, same, -, aborted⟩ := counted.rollback
  exact ⟨s', rolled, withdrawn.of_context rfl rfl, same, aborted⟩

/-- An abort gives the attempt up and reports it, unless it meets a full counter, and then it changes
    nothing. -/
theorem finishAbort (h : s.Holding) (c : Conflict) (site : AbortSite) :
    (∃ f, s.finishAbort c site = (.faulted f, s)) ∨
    ∃ s', s.finishAbort c site = (site.report c, s') ∧ Withdrawn s s' ∧
      s'.context.lastConflict = some c ∧ (s.context.phase = .active → s'.context.phase = .aborted) := by
  unfold Scope.finishAbort
  split
  · exact Or.inl ⟨_, rfl⟩
  · next tally counted =>
    obtain ⟨s', rolled, withdrawn, conflict, aborted⟩ := h.rollback_counted tally (some c)
    rw [rolled]
    refine Or.inr ⟨s', ?_, withdrawn, conflict, aborted⟩
    cases site <;> rfl

end Holding

/-! ## Any call -/

theorem publish_eq (s : Scope) : ∃ published,
    s.publish.2 = ⟨{ s.runtime with published }, { s.context with tally := {} }⟩ := by
  unfold publish
  dsimp only
  split
  · exact ⟨_, rfl⟩
  · unfold Runtime.publish
    cases s.runtime.published.add s.context.tally with
    | error f => exact ⟨_, rfl⟩
    | ok published => exact ⟨published, rfl⟩

theorem Withdrawn.publish (w : Withdrawn s s') : Withdrawn s s'.publish.2 := by
  obtain ⟨published, same⟩ := publish_eq s'
  rw [same]
  exact ⟨w.owner, w.nextOwner, w.memory, w.clock, w.given, w.empty⟩

theorem finishGiveUp_works (s : Scope) (reason : GiveUpReason) : Works s (s.finishGiveUp reason).2 := by
  unfold finishGiveUp
  dsimp only
  split
  · exact .keep rfl rfl rfl rfl rfl
  · exact .keep rfl rfl rfl rfl rfl

theorem silent_snd (p : Except Fault Unit × Scope) : (silent p).2 = p.2 := by
  rcases p with ⟨_ | _, s⟩ <;> rfl

theorem silent_ne_standing (p : Except Fault Unit × Scope) (e : Event) (rest : Pending) :
    (silent p).1 ≠ .standing e rest := by
  rcases p with ⟨_ | _, s⟩ <;> nofun

theorem extend_snd (s : Scope) : s.extend.2 = s := by
  unfold extend tryExtend
  dsimp only
  split <;> rfl

namespace Holding

theorem perform (h : s.Holding) (request : Request) : Works s (s.perform request).2 := by
  cases request with
  | start block mode =>
    obtain ⟨s', started, withdrawn⟩ := h.start block mode
    simp only [Scope.perform, silent_snd, started]
    exact withdrawn.works h
  | probe l => exact (Segment.probe s).toWorks
  | load l kind => exact (Segment.load s).toWorks
  | read l kind => exact (Segment.read s).toWorks
  | write l v => exact (Segment.write s).toWorks
  | commit => exact (Segment.commit h .commit).toWorks
  | rollback =>
    obtain ⟨s', rolled, withdrawn, -⟩ := h.rollback
    simp only [Scope.perform, silent_snd, rolled]
    exact withdrawn.works h
  | extend =>
    rw [show s.perform .extend = s.extend from rfl, extend_snd]
    exact .refl s
  | publish =>
    obtain ⟨published, same⟩ := publish_eq s
    simp only [Scope.perform, silent_snd, same]
    exact .keep rfl rfl rfl rfl rfl

theorem resume (h : s.Holding) (rest : Pending) : Works s (s.resume rest).2 := by
  cases rest with
  | abort c site =>
    rw [show s.resume (.abort c site) = s.finishAbort c site from rfl]
    rcases h.finishAbort c site with ⟨f, faulted⟩ | ⟨s', ended, withdrawn, -⟩
    · rw [faulted]
      exact .refl s
    · rw [ended]
      exact withdrawn.works h
  | failCommit site => exact (Segment.abort s _ _).toWorks
  | extend candidate next => exact (Segment.extended s candidate next).toWorks
  | giveUp reason report =>
    simp only [Scope.resume, silent_snd]
    exact finishGiveUp_works s reason

end Holding

end Scope

end TransactionalMemory
