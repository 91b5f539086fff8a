import TransactionalMemory.Proofs.Runs
import TransactionalMemory.Proofs.Turns

/-! # Who holds a slot

In every run of any contexts a slot is held by an owner exactly if the owner's context is active and its
log of writes names the slot (`slots_held_by_active_writers`).  Nothing is asked of the run but that
there are owner ids for all contexts: fields may be missing, counters and the clock may be full, and any
call may end in a fault.

One step either lets one context work on its own slots, or changes who is there (`System.Turn`); both keep
the invariant (`System.Orderly`), and so a run does.
-/

namespace TransactionalMemory

variable {α ε : Type}

namespace System

variable {s s' : System} {owner o : OwnerId} {w : Worker} {scope : Scope}

/-! ## The invariant -/

/-- Every context has the owner whose worker it is, and holds the slots that its log of writes names. -/
structure Orderly (s : System) : Prop extends Roster s where
  stamped : s.runtime.table.Stamped
  owners : ∀ o w, s.worker? o = some w → w.context.owner = o
  holding : ∀ o w, s.worker? o = some w → (w.scope s.runtime).Holding

/-- One worker has worked on its slots, and may be gone. -/
structure Turned (s s' : System) (owner : OwnerId) (w : Worker) (scope : Scope) : Prop where
  here : s.worker? owner = some w
  works : Scope.Works (w.scope s.runtime) scope
  runtime : s'.runtime = scope.runtime
  others : ∀ o, o ≠ owner → s'.worker? o = s.worker? o
  announced : s'.announced = s.announced
  self : ∀ w', s'.worker? owner = some w' → w'.context = scope.context
  gone : s'.worker? owner = none → scope.context.phase ≠ .active

/-- What one step may do to the slots and their owners, and whether it hands out an owner id. -/
inductive Turn (s : System) : Bool → System → Prop where
  | none : Turn s false s
  | worked {s' : System} (owner : OwnerId) (w : Worker) (scope : Scope)
      (turned : Turned s s' owner w scope) : Turn s false s'
  | announced : Turn s true
      { s with
        runtime := { s.runtime with nextOwner := s.runtime.nextOwner + 1 }
        announced := ⟨s.runtime.nextOwner⟩ :: s.announced }
  | registered (owner : OwnerId) (window : Window) (member : owner ∈ s.announced) :
      Turn s false ((s.withdraw owner).setWorker owner { context := { owner, window } })
  /-- There is no room for the context of an announced owner. -/
  | withdrawn (owner : OwnerId) : Turn s false (s.withdraw owner)

theorem Turn.nextOwner {new : Bool} (turn : Turn s new s') :
    s'.runtime.nextOwner = s.runtime.nextOwner + new.toNat := by
  cases turn with
  | worked owner w scope turned =>
    rw [turned.runtime]
    exact turned.works.nextOwner
  | _ => rfl

/-- An id that is too large for an owner is not handed out. -/
theorem announce_beyond (large : lockBit ≤ s.runtime.nextOwner) (fits : s.runtime.nextOwner + 1 < wordRange) :
    s.announce (α := α) (ε := ε) = (.faulted (.ownerId s.runtime.nextOwner),
      { s with runtime := { s.runtime with nextOwner := s.runtime.nextOwner + 1 } }) := by
  have refused : (s.runtime.nextOwner = 0 || decide (lockBit ≤ s.runtime.nextOwner)) = true := by
    simp [large]
  rw [announce, Runtime.allocateOwner, if_pos refused, Nat.mod_eq_of_lt fits]

namespace Orderly

/-! ## A turn keeps the invariant -/

section

variable (h : s.Orderly)

include h

theorem turned (turned : Turned s s' owner w scope) : s'.Orderly := by
  obtain ⟨here, works, runtime, others, announced, self, gone⟩ := turned
  have held := h.holding owner w here
  have same : scope.context.owner = owner := works.owner.trans (h.owners owner w here)
  have holding : scope.Holding := held.handles h.stamped works.owner works.handles
  have words : ∀ o, o ≠ owner → ∀ slot,
      scope.runtime.table.word slot = .held o ↔ s.runtime.table.word slot = .held o := by
    intro o other
    refine works.handles.word_iff held ?_
    rw [show (w.scope s.runtime).context.owner = owner from h.owners owner w here]
    exact other
  have roster : s'.Roster := by
    refine h.toRoster.moved here others announced (runtime ▸ works.nextOwner) ?_ ?_
    · intro o other slot held
      rw [runtime] at held
      exact (words o other slot).mp held
    · intro none slot held
      rw [runtime, ← same] at held
      -- A context that is gone is not active, and so it held nothing.
      have owns := holding.listed slot held
      rw [holding.idle (gone none)] at owns
      cases owns
  refine ⟨roster, ?_, ?_, ?_⟩
  · rw [runtime]
    exact works.handles.stamped h.stamped
  · intro o w' there
    by_cases other : o = owner
    · subst other
      rw [self w' there]
      exact same
    · rw [others o other] at there
      exact h.owners o w' there
  · intro o w' there
    by_cases other : o = owner
    · subst other
      rw [Worker.scope, self w' there, runtime]
      exact holding
    · rw [others o other] at there
      rw [Worker.scope, runtime]
      refine (h.holding o w' there).beside works.handles.bits ?_
      rw [h.owners o w' there]
      exact words o other

theorem registered (member : owner ∈ s.announced) (window : Window) :
    ((s.withdraw owner).setWorker owner { context := { owner, window } }).Orderly := by
  have placed : ∀ o, ((s.withdraw owner).setWorker owner { context := { owner, window } }).worker? o =
      if owner = o then some { context := { owner, window } } else s.worker? o := fun _ =>
    worker?_setWorker
  refine ⟨h.toRoster.register member _, h.stamped, ?_, ?_⟩
  · intro o w there
    rw [placed] at there
    split at there
    · next same =>
      cases there
      exact same
    · exact h.owners o w there
  · intro o w there
    rw [placed] at there
    split at there
    · cases there
      exact .of_empty rfl (h.strangers owner (h.expected owner member).2)
    · exact h.holding o w there

theorem turn {new : Bool} (turn : Turn s new s') : s'.Orderly := by
  cases turn with
  | none => exact h
  | worked owner w scope turned => exact h.turned turned
  | announced =>
    exact ⟨h.toRoster.announce, h.stamped, h.owners,
      fun o w there => (h.holding o w there).keep rfl rfl rfl rfl⟩
  | registered owner window member => exact h.registered member window
  | withdrawn owner => exact ⟨h.toRoster.withdraw owner, h.stamped, h.owners, h.holding⟩

/-! ## Every step is a turn -/

theorem act (owner : OwnerId) (action : WorkerAction α ε) : Turn s false (s.act owner action).2 := by
  unfold System.act
  cases here : s.worker? owner with
  | none => exact .none
  | some w =>
    refine .worked owner w (Worker.landing (w.step s.runtime action))
      ⟨here, Worker.step_works (h.holding owner w here) action, rfl, ?_, rfl, ?_, ?_⟩
    · intro o other
      exact worker?_setWorker.trans (if_neg (Ne.symm other))
    · intro w' there
      rw [worker?_setWorker, if_pos rfl] at there
      cases there
      rfl
    · intro none
      rw [worker?_setWorker, if_pos rfl] at none
      cases none

/-- A context is dropped with its attempt given up, or not at all. -/
theorem drop_cases (owner : OwnerId) :
    (s.drop (α := α) (ε := ε) owner).1.isRefused = true ∧ (s.drop (α := α) (ε := ε) owner).2 = s ∨
    (s.drop (α := α) (ε := ε) owner).1.isRefused = false ∧
      ∃ w scope, s.worker? owner = some w ∧ Scope.Withdrawn (w.scope s.runtime) scope ∧
        scope.context.phase ≠ .active ∧
        (s.drop (α := α) (ε := ε) owner).2 = ⟨scope.runtime, s.workers.erase owner.id, s.announced⟩ := by
  unfold System.drop
  split
  · exact Or.inl ⟨rfl, rfl⟩
  · next w here =>
    split
    · exact Or.inl ⟨rfl, rfl⟩
    · obtain ⟨scope, rolled, withdrawn, -, inactive, -⟩ := (h.holding owner w here).rollback
      have inactive : scope.publish.2.context.phase ≠ .active := by
        obtain ⟨published, same⟩ := Scope.publish_eq scope
        rw [same]
        exact inactive
      replace withdrawn := withdrawn.publish
      rw [rolled]
      -- Whether the counters can be handed over makes no difference to who is left.
      obtain ⟨result, scope', publishes⟩ : ∃ result scope', scope.publish = (result, scope') := ⟨_, _, rfl⟩
      simp only [publishes] at inactive withdrawn ⊢
      cases result <;> exact Or.inr ⟨rfl, w, scope', here, withdrawn, inactive, rfl⟩

theorem drop (owner : OwnerId) : Turn s false (s.drop (α := α) (ε := ε) owner).2 := by
  rcases h.drop_cases (α := α) (ε := ε) owner with
    ⟨-, same⟩ | ⟨-, w, scope, here, withdrawn, inactive, dropped⟩
  · rw [same]
    exact .none
  · rw [dropped]
    refine .worked owner w scope ⟨here, withdrawn.works (h.holding owner w here), rfl, ?_, rfl, ?_,
      fun _ => inactive⟩
    · intro o other
      exact (worker?_erase _).trans (if_neg (Ne.symm other))
    · intro w' there
      rw [worker?_erase, if_pos rfl] at there
      cases there

theorem renumbered : Orderly { s with runtime := { s.runtime with nextOwner := s.runtime.nextOwner + 1 } } where
  strangers := h.strangers
  known o w there := Nat.lt_succ_of_lt (h.known o w there)
  expected o member := ⟨Nat.lt_succ_of_lt (h.expected o member).1, (h.expected o member).2⟩
  distinct := h.distinct
  stamped := h.stamped
  owners := h.owners
  holding o w there := (h.holding o w there).keep rfl rfl rfl rfl

omit h in
theorem announce (pos : 0 < s.runtime.nextOwner) (small : s.runtime.nextOwner < lockBit) :
    Turn s true (s.announce (α := α) (ε := ε)).2 := by
  unfold System.announce
  rw [Runtime.allocateOwner_eq pos small]
  exact .announced

omit h in
theorem register (owner : OwnerId) : Turn s false (s.register (α := α) (ε := ε) owner).2 := by
  unfold System.register
  split
  · next member =>
    dsimp only
    split
    · exact .withdrawn owner
    · exact .registered owner _ member
  · exact .none

theorem turn_step {a : Action α ε} (pos : 0 < s.runtime.nextOwner)
    (ids : a.isAnnounce = true → s.runtime.nextOwner < lockBit) :
    Turn s a.isAnnounce (s.step a).2 := by
  cases a with
  | announce => exact announce pos (ids rfl)
  | register owner => exact register owner
  | drop owner => exact h.drop owner
  | act owner action => exact h.act owner action

end

end Orderly

end System

/-! ## Whole runs -/

namespace Chronicle

variable {settings : Settings} {r : Runtime}

theorem orderly_start (new : Runtime.new? settings = .ok r) (m : Memory) :
    (start r m).system.Orderly := by
  have nobody : ∀ o, (start r m).system.worker? o = none := fun o => by simp [start, System.worker?]
  have free : ∀ slot, (start r m).system.runtime.table.word slot = .free 0 :=
    LockTable.word_of_untouched (Runtime.of_new? new).2.1
  refine ⟨⟨?_, ?_, List.forall_mem_nil _, .nil⟩, ?_, ?_, ?_⟩
  · intro o _ slot held
    rw [free slot] at held
    cases held
  · intro o w there
    rw [nobody] at there
    cases there
  · intro slot stamp word
    rw [free slot] at word
    cases word
    decide
  · intro o w there
    rw [nobody] at there
    cases there
  · intro o w there
    rw [nobody] at there
    cases there

/-- The next action of a run is a turn, as long as there are owner ids. -/
theorem turn_next {t : Chronicle} {actions : List (Action α ε)} {a : Action α ε}
    (h : t.system.Orderly) (ids : t.system.runtime.nextOwner = actions.countP Action.isAnnounce + 1)
    (owners : (actions ++ [a]).countP Action.isAnnounce < lockBit) :
    System.Turn t.system a.isAnnounce (t.step a).system := by
  rw [List.countP_append, List.countP_singleton] at owners
  rw [system_step]
  refine h.turn_step (by omega) fun own => ?_
  rw [if_pos own] at owners
  omega

/-- Every run leads to an orderly system, as long as the next owner id fits a word.  Ids that are too large
    for an owner are refused. -/
theorem orderly_run_of_ids (new : Runtime.new? settings = .ok r) (m : Memory) {actions : List (Action α ε)}
    (ids : actions.countP Action.isAnnounce + 1 < wordRange) :
    ((start r m).run actions).system.Orderly ∧
      ((start r m).run actions).system.runtime.nextOwner = actions.countP Action.isAnnounce + 1 := by
  induction actions using List.reverseRecOn with
  | nil => exact ⟨orderly_start new m, (Runtime.of_new? new).2.2.2.1⟩
  | append_singleton actions a ih =>
    rw [List.countP_append, List.countP_singleton] at ids ⊢
    obtain ⟨orderly, next⟩ := ih (by omega)
    rw [run_snoc, system_step]
    by_cases beyond : a.isAnnounce = true ∧ lockBit ≤ ((start r m).run actions).system.runtime.nextOwner
    · obtain ⟨announces, large⟩ := beyond
      cases a with
      | announce =>
        rw [if_pos announces] at ids
        rw [System.step, System.announce_beyond large (by omega), if_pos announces]
        exact ⟨orderly.renumbered, congrArg (· + 1) next⟩
      | _ => cases announces
    · have turn := orderly.turn_step (a := a) (by omega) fun announces =>
        Nat.lt_of_not_le fun large => beyond ⟨announces, large⟩
      refine ⟨orderly.turn turn, ?_⟩
      rw [turn.nextOwner, next]
      cases a.isAnnounce <;> rfl

theorem orderly_run (new : Runtime.new? settings = .ok r) (m : Memory) {actions : List (Action α ε)}
    (owners : actions.countP Action.isAnnounce < lockBit) :
    ((start r m).run actions).system.Orderly ∧
      ((start r m).run actions).system.runtime.nextOwner = actions.countP Action.isAnnounce + 1 := by
  refine orderly_run_of_ids new m ?_
  simp only [lockBit, wordRange] at owners ⊢
  omega

end Chronicle

/-! ## Slots and logs -/

/-- A worker of the system, under the id it stands under, that has a context of the given owner. -/
def System.Lives (s : System) (owner : OwnerId) (p : OwnerId × Worker) : Prop :=
  s.worker? p.1 = some p.2 ∧ p.2.context.owner = owner

namespace System.Orderly

variable {s : System} {owner o : OwnerId} {w : Worker} {p : OwnerId × Worker}

theorem lives_iff (h : s.Orderly) : s.Lives owner p ↔ p.1 = owner ∧ s.worker? owner = some p.2 := by
  constructor
  · rintro ⟨there, same⟩
    have here : p.1 = owner := (h.owners p.1 p.2 there).symm.trans same
    exact ⟨here, here ▸ there⟩
  · rintro ⟨rfl, there⟩
    exact ⟨there, h.owners p.1 p.2 there⟩

theorem word_iff (h : s.Orderly) (here : s.worker? owner = some w) (slot : Nat) :
    s.runtime.table.word slot = .held owner ↔ w.context.writes.owns slot = true := by
  have held := h.holding owner w here
  have same : (w.scope s.runtime).context.owner = owner := h.owners owner w here
  constructor
  · intro word
    exact held.listed slot (by rw [same]; exact word)
  · intro owns
    obtain ⟨stamp, own⟩ := Option.isSome_iff_exists.mp owns
    have word := held.held slot stamp own
    rwa [same] at word

theorem active_of_owns (h : s.Orderly) (here : s.worker? owner = some w) {slot : Nat}
    (owns : w.context.writes.owns slot = true) : w.context.phase = .active := by
  by_contra inactive
  have empty : w.context.writes = {} := (h.holding owner w here).idle inactive
  rw [empty] at owns
  cases owns

end System.Orderly

/-- In a run of any contexts, whatever faults they meet, a slot is held by an owner exactly if there is
    one context of the owner, which is active and has the slot in its log of writes.  No slot is in the
    logs of two contexts, the slots in a log are those of its writes, and an owner whose context is not
    active, or not there, holds none. -/
theorem slots_held_by_active_writers {settings : Settings} {r : Runtime}
    (new : Runtime.new? settings = .ok r) (m : Memory) (actions : List (Action α ε))
    (owners : actions.countP Action.isAnnounce < lockBit) :
    let s := ((Chronicle.start r m).run actions).system
    (∀ slot owner, s.runtime.table.word slot = .held owner ↔
      (∃! p, s.Lives owner p) ∧
        ∃ p, s.Lives owner p ∧ p.2.context.phase = .active ∧ p.2.context.writes.owns slot = true) ∧
    (∀ o w o' w' slot, s.worker? o = some w → s.worker? o' = some w' →
      w.context.writes.owns slot = true → w'.context.writes.owns slot = true → o = o') ∧
    (∀ o w, s.worker? o = some w →
      (∀ slot, w.context.writes.owns slot = true →
        ∃ e ∈ w.context.writes.entries, s.runtime.table.slotOf e.location = slot) ∧
      ∀ e ∈ w.context.writes.entries, w.context.writes.owns (s.runtime.table.slotOf e.location) = true) ∧
    ∀ o, (∀ w, s.worker? o = some w → w.context.phase ≠ .active) →
      ∀ slot, s.runtime.table.word slot ≠ .held o := by
  intro s
  have orderly : s.Orderly := (Chronicle.orderly_run new m owners).1
  refine ⟨?_, ?_, ?_, ?_⟩
  · intro slot owner
    constructor
    · intro word
      cases here : s.worker? owner with
      | none => exact absurd word (orderly.strangers owner here slot)
      | some w =>
        have lives : s.Lives owner (owner, w) := orderly.lives_iff.mpr ⟨rfl, here⟩
        have owns := (orderly.word_iff here slot).mp word
        refine ⟨⟨(owner, w), lives, ?_⟩, (owner, w), lives, orderly.active_of_owns here owns, owns⟩
        rintro ⟨o, w'⟩ lives'
        obtain ⟨rfl, here'⟩ := orderly.lives_iff.mp lives'
        cases here.symm.trans here'
        rfl
    · rintro ⟨-, p, lives, -, owns⟩
      exact (orderly.word_iff (orderly.lives_iff.mp lives).2 slot).mpr owns
  · intro o w o' w' slot here here' owns owns'
    have word := (orderly.word_iff here slot).mpr owns
    have same := word.symm.trans ((orderly.word_iff here' slot).mpr owns')
    cases same
    rfl
  · intro o w here
    have wellFormed := (orderly.holding o w here).wellFormed
    exact ⟨fun slot => wellFormed.owns_iff_exists.mp, fun e member =>
      wellFormed.owns_iff_exists.mpr ⟨e, member, rfl⟩⟩
  · intro o inactive slot word
    cases here : s.worker? o with
    | none => exact orderly.strangers o here slot word
    | some w => exact inactive w here (orderly.active_of_owns here ((orderly.word_iff here slot).mp word))

/-- One context has written, the commit of another one has met a field that does not exist, and a third
    one is dropped in the middle of an attempt: the first two hold a slot each, the third one none. -/
theorem slots_held_by_active_writers_of_three :
    let actions : List (Action Unit Unit) :=
      [.announce, .announce, .announce, .register ⟨1⟩, .register ⟨2⟩, .register ⟨3⟩,
       .act ⟨1⟩ (.call (.start 0 .regular)), .act ⟨2⟩ (.call (.start 0 .elastic)),
       .act ⟨3⟩ (.call (.start 0 .regular)), .act ⟨1⟩ (.call (.write ⟨16, 0⟩ (.u64 7))),
       .act ⟨2⟩ (.call (.write ⟨16, 5⟩ (.u64 8))), .act ⟨3⟩ (.call (.write ⟨16, 1⟩ (.u64 9))),
       .act ⟨2⟩ (.call .commit), .drop ⟨3⟩]
    let s := ((Chronicle.start smallRuntime pair).run actions).system
    s.runtime.table.word (smallRuntime.table.slotOf ⟨16, 0⟩) = .held ⟨1⟩ ∧
      s.runtime.table.word (smallRuntime.table.slotOf ⟨16, 5⟩) = .held ⟨2⟩ ∧
      s.runtime.table.word (smallRuntime.table.slotOf ⟨16, 1⟩) = .free 0 ∧
      (∃! p, s.Lives ⟨2⟩ p) ∧ ∀ slot, s.runtime.table.word slot ≠ .held ⟨3⟩ := by
  intro actions s
  have held := slots_held_by_active_writers smallRuntime_new pair actions (by decide)
  have second : s.runtime.table.word (smallRuntime.table.slotOf ⟨16, 5⟩) = .held ⟨2⟩ := by
    decide +kernel
  have gone : s.worker? ⟨3⟩ = none := by decide +kernel
  refine ⟨by decide +kernel, second, by decide +kernel, ((held.1 _ _).mp second).1,
    held.2.2.2 ⟨3⟩ fun w here => ?_⟩
  rw [gone] at here
  cases here

end TransactionalMemory
