import TransactionalMemory.Proofs.Assertions
import TransactionalMemory.Proofs.Recall
import TransactionalMemory.Proofs.Tallies

/-! # Proper use meets no fault

A client that uses a system properly (`ProperUse`) accesses fields that exist, and only in an attempt; it does not
commit what it has not begun; and the run is within the limits of the machine.  Then no step of any interleaving
meets a fault (`proper_use_meets_no_fault`): no assertion fails, no index is out of bounds, no counter overflows.

That the assertions hold follows from the invariant of the system (`Sound.reliable`).  Two facts of each worker are
needed beside it, and every step keeps them (`Worker.Ready`): a call that stands before the bound moves reads a
field that exists, and a worker inside a block has begun an attempt.
-/

namespace TransactionalMemory

variable {α ε : Type}

theorem exists_of_isOk {β : Type} {x : Except Fault β} (ok : x.isOk = true) : ∃ b, x = .ok b := by
  cases x with
  | ok b => exact ⟨b, rfl⟩
  | error f => cases ok

/-! ## The invariant and the assertions -/

namespace Sound

variable {allowed : Mode → Prop} {m₀ : Memory} {d : Seat}

/-- All that the assertions of the calls rest on follows from the invariant. -/
theorem reliable (h : Sound allowed m₀ d) (limit : d.runtime.clock.now < lockBit - 1) : d.scope.Reliable where
  toHolding := h.holding
  stamped slot stamp word := h.ledger.free slot stamp word ▸ h.ledger.version_le_now slot
  inside e remembers := by
    have placed : e.Placed d.slotOf d.context.upper := by
      rcases remembers with logged | watched
      · exact h.dated.logged e logged
      · exact h.dated.watched e watched
    rw [placed.slot]
    exact LockTable.slotOf_lt_size _ _
  exist e member := by
    have logged := (RedoLog.value?_eq_some_iff h.owning.wellFormed).mpr ⟨e, member, rfl, rfl⟩
    exact h.owning.exist e.location e.value logged
  lower := h.dated.lower_le.trans h.dated.upper_le
  limit := limit

theorem expects (h : Sound allowed m₀ d) {candidate : Nat} {next : AfterExtension}
    (waiting : d.pending = some (.extend candidate next)) (has : ∀ l ∈ next.location?, d.runtime.memory.Has l) :
    Scope.Expects d.scope candidate next := by
  have awaited := (h.waits candidate next waiting).awaited
  cases next with
  | answer => trivial
  | loadHeld l kind => exact has l rfl
  | recheck l kind slot stamp v =>
    obtain ⟨-, -, here, unheld, reached, has, -⟩ := awaited
    exact ⟨has, here, here ▸ unheld, reached⟩

end Sound

/-! ## What a client may do -/

def WorkerAction.request? : WorkerAction α ε → Option Request
  | .call request => some request
  | _ => none

/-- What the counters come to once a call goes on that has to count something. -/
def Pending.counted? (t : Tally) : Pending → Option (Except Fault Tally)
  | .abort c _ => some (t.countAbort c)
  | .giveUp .exhausted _ => some t.countExhausted
  | .giveUp .abandoned _ => some t.countAbandoned
  | _ => none

/-- What the counters come to in a step that counts something, or hands the counters over. -/
def Worker.counted? (w : Worker) (r : Runtime) (action : WorkerAction α ε) : Option (Except Fault Tally) :=
  match action with
  | .resume => w.pending.bind (Pending.counted? w.context.tally)
  | .leave (.conflict c) =>
    if w.inBody = true ∧ w.context.phase = .active then some (w.context.tally.countAbort c) else none
  | .call .publish =>
    if w.isBusy = true ∨ w.context.tally = {} then none else some (r.published.add w.context.tally)
  | action =>
    if w.context.phase = .active ∧ (w.step r action).2.2.context.phase = .committed then
      some (w.context.tally.countCommit w.context.mode w.context.writes.isEmpty)
    else none

/-- A worker that is free is only asked for what its context accepts, and no counter overflows. -/
structure Worker.Allows (w : Worker) (r : Runtime) (action : WorkerAction α ε) : Prop where
  accepts : ∀ request ∈ action.request?, w.isBusy = false → w.context.Accepts request
  counts : ∀ counted ∈ w.counted? r action, counted.isOk = true

instance (w : Worker) (r : Runtime) (action : WorkerAction α ε) : Decidable (w.Allows r action) :=
  decidable_of_iff ((∀ request ∈ action.request?, w.isBusy = false → w.context.Accepts request) ∧
      ∀ counted ∈ w.counted? r action, counted.isOk = true)
    ⟨fun both => ⟨both.1, both.2⟩, fun allows => ⟨allows.accepts, allows.counts⟩⟩

/-- A commit that happens can be counted. -/
theorem Worker.Allows.commit {w : Worker} {r : Runtime} {action : WorkerAction α ε} (allows : w.Allows r action)
    (counts : w.counted? r action =
      if w.context.phase = .active ∧ (w.step r action).2.2.context.phase = .committed then
        some (w.context.tally.countCommit w.context.mode w.context.writes.isEmpty)
      else none)
    {s : Scope} (landed : landing (w.step r action) = s) (active : w.context.phase = .active)
    (committed : s.context.phase = .committed) :
    ∃ tally, w.context.tally.countCommit w.context.mode w.context.writes.isEmpty = .ok tally := by
  subst landed
  refine exists_of_isOk (allows.counts _ ?_)
  rw [counts]
  exact if_pos ⟨active, committed⟩

/-! ## Steps of a worker -/

namespace Worker

variable {w : Worker} {r : Runtime} {action : WorkerAction α ε} {out : Response α ε × Runtime × Worker}
  {p : Progress × Scope} {m : Memory}

/-- What every step of a worker keeps: a call that stands before the bound moves reads a field that exists, and a
    worker inside a block has begun an attempt. -/
structure Ready (m : Memory) (w : Worker) : Prop where
  aims : ∀ l ∈ w.pending.bind Pending.location?, m.Has l
  begun : w.context.phase = .uninitialized → w.blocks = []

theorem Ready.registered (m : Memory) (owner : OwnerId) (window : Window) :
    Ready m { context := { owner, window } } :=
  ⟨nofun, fun _ => rfl⟩

/-- A step that meets no fault. -/
structure Smooth (m : Memory) (out : Response α ε × Runtime × Worker) : Prop where
  runs : ∀ f, out.1 ≠ .faulted f
  aims : ∀ l ∈ out.2.2.pending.bind Pending.location?, m.Has l

namespace Smooth

theorem of_segment (smooth : Scope.Smooth (w.scope r) p) (relays : Relays p out) : Smooth r.memory out where
  runs f told := smooth.runs f (relays.faults f told)
  aims l member := by
    obtain ⟨rest, waiting, aims⟩ := Option.bind_eq_some_iff.mp member
    rcases relays.pending rest waiting with gives | ⟨event, stands⟩
    · cases rest with
      | giveUp reason report => cases aims
      | _ => cases gives
    · cases rest with
      | extend candidate next => exact smooth.waits event candidate next stands l aims
      | _ => cases aims

theorem refuse (ready : w.Ready r.memory) (why : Refusal) :
    Smooth (α := α) (ε := ε) r.memory (w.refuse why r) :=
  ⟨nofun, ready.aims⟩

/-- The worker answers for itself. -/
theorem settle (w : Worker) {response : Response α ε} {s : Scope} (runs : ∀ f, response ≠ .faulted f) :
    Smooth m (w.settle response s) :=
  ⟨runs, nofun⟩

section

variable (h : (w.scope r).Reliable)

include h

theorem call {request : Request} (idle : w.isBusy = false)
    (allows : w.Allows r (.call request : WorkerAction α ε)) (has : ∀ l ∈ request.location?, r.memory.Has l) :
    Smooth r.memory (w.advance (α := α) (ε := ε) false ((w.scope r).perform request)) := by
  have accepts := allows.accepts request rfl idle
  refine of_segment (w := w) ?_ (.advance ..)
  cases request with
  | start block mode =>
    obtain ⟨s, started, -⟩ := h.start block mode
    exact .silent ⟨s, started⟩
  | probe l => exact .probe (accepts.access rfl)
  | load l kind => exact .load h (accepts.access rfl) (has l rfl)
  | read l kind => exact .read h (accepts.access rfl) (has l rfl)
  | write l v => exact .write h (accepts.access rfl)
  | commit =>
    refine .commit h (accepts.commit rfl) (allows.commit rfl ?_)
    rw [step_call_of_idle idle, landing_advance, Scope.perform]
  | rollback =>
    obtain ⟨s, rolled, -⟩ := h.rollback
    exact .silent ⟨s, rolled⟩
  | extend => exact .extend h
  | publish =>
    refine .silent (Scope.publish_ok fun counted => ?_)
    refine exists_of_isOk (allows.counts _ (if_neg ?_))
    rintro (busy | nothing)
    · cases idle.symm.trans busy
    · exact counted nothing

theorem resume {rest : Pending} (waiting : w.pending = some rest)
    (allows : w.Allows r (.resume : WorkerAction α ε))
    (expects : ∀ candidate next, rest = .extend candidate next →
      Scope.Expects (w.scope r) candidate next) :
    Smooth r.memory (w.resume (α := α) (ε := ε) rest r) := by
  have counts : ∀ counted, rest.counted? w.context.tally = some counted → ∃ tally, counted = .ok tally := by
    intro counted member
    refine exists_of_isOk (allows.counts counted ?_)
    rw [counted?, waiting]
    exact member
  refine of_segment (w := w) ?_ (.resume ..)
  cases rest with
  | abort c site => exact .finishAbort h.toHolding (counts _ rfl) site
  | failCommit site => exact .abort _ _
  | extend candidate next => exact .extended h (expects candidate next rfl)
  | giveUp reason report =>
    refine .silent (Scope.finishGiveUp_ok ?_ ?_)
    · rintro rfl
      exact counts _ rfl
    · rintro rfl
      exact counts _ rfl

theorem leaveBy (begun : w.context.phase ≠ .uninitialized) (result : BlockResult α ε)
    (counts : w.context.phase = .active → ((w.scope r).commit .block).2.context.phase = .committed →
      ∃ tally, w.context.tally.countCommit w.context.mode w.context.writes.isEmpty = .ok tally) :
    Smooth r.memory (w.leaveBy result r) :=
  of_segment (w := w) (.commit h begun counts) (.leaveBy ..)

/-- A conflict that the engine has not met itself is counted, and the attempt is rolled back. -/
theorem leaveOnConflict {c : Conflict}
    (counts : w.context.phase = .active → ∃ tally, w.context.tally.countAbort c = .ok tally) :
    Smooth r.memory (w.leaveOnConflict (α := α) (ε := ε) c r) := by
  have counted : ∃ tally, (if (w.scope r).context.phase = .active then (w.scope r).context.tally.countAbort c
      else .ok (w.scope r).context.tally) = .ok tally := by
    split
    · next active => exact counts active
    · exact ⟨_, rfl⟩
  obtain ⟨tally, counted⟩ := counted
  obtain ⟨s, rolled, -⟩ := h.rollback_counted tally (w.scope r).context.lastConflict
  simp only [Worker.leaveOnConflict, counted, rolled]
  exact of_segment (w := w) .lost (.afterConflict rfl w c)

theorem decide (b : Block) (c : Conflict) (control : Control) :
    Smooth r.memory (w.decide (α := α) (ε := ε) b c control r) := by
  cases control with
  | stop => exact of_segment (w := w) (.answer .done) (.giveUp rfl ..)
  | retry =>
    obtain ⟨s, -, same⟩ := w.retry_eq (α := α) (ε := ε) h.toHolding b c
    rw [same]
    exact .settle _ nofun

end

end Smooth

/-- A worker that is used properly meets no fault. -/
theorem smooth_step (h : (w.scope r).Reliable) (ready : w.Ready r.memory)
    (expects : ∀ candidate next, w.pending = some (.extend candidate next) →
      Scope.Expects (w.scope r) candidate next)
    (allows : w.Allows r action) (has : ∀ l ∈ action.request?.bind Request.location?, r.memory.Has l) :
    Smooth r.memory (w.step r action) := by
  -- The body of a block runs, so an attempt has begun.
  have begun : w.inBody = true → w.context.phase ≠ .uninitialized := by
    intro running fresh
    simp [inBody, ready.begun fresh] at running
  have dispatch := dispatch_step w r action
  generalize same : w.step r action = out at dispatch ⊢
  cases dispatch with
  | refuse => exact .refuse ready _
  | call idle => exact .call h idle allows has
  | resume rest waiting =>
    refine .resume h waiting allows fun candidate next extending => expects candidate next ?_
    rw [waiting, extending]
  | enter _ block mode =>
    obtain ⟨s, -, entered⟩ := w.enter_eq (α := α) (ε := ε) h.toHolding block mode
    rw [entered]
    exact .settle _ (by rintro _ ⟨⟩)
  | leave inside result =>
    cases result with
    | value a =>
      refine .leaveBy h (begun inside) _ (allows.commit rfl ?_)
      rw [same, leave, landing_leaveBy]
    | failure e =>
      refine .leaveBy h (begun inside) _ (allows.commit rfl ?_)
      rw [same, leave, landing_leaveBy]
    | conflict c =>
      refine .leaveOnConflict h fun active => ?_
      exact exists_of_isOk (allows.counts _ (if_pos ⟨inside, active⟩))
  | decide _ b c _ control => exact .decide h b c control
  | unwind =>
    obtain ⟨s, -, left⟩ := w.unwind_eq (α := α) (ε := ε) h.toHolding
    rw [left]
    exact .settle _ (by rintro _ ⟨⟩)

/-! ## Blocks and attempts -/

theorem blocks_advance_of_nil (none : w.blocks = []) (ofBlock : Bool) (p : Progress × Scope) :
    (w.advance (α := α) (ε := ε) ofBlock p).2.2.blocks = [] := by
  obtain ⟨a, s⟩ := p
  cases a with
  | answered a => exact none
  | standing e rest => exact none
  | faulted f =>
    cases ofBlock with
    | false => exact none
    | true => exact congrArg List.tail none
  | commitLost =>
    simp only [advance, afterConflict, none]
    exact none

/-- A worker outside of all blocks stays there, or it begins an attempt. -/
theorem blocks_step_of_nil (h : (w.scope r).Holding) (none : w.blocks = []) (action : WorkerAction α ε) :
    (w.step r action).2.2.blocks = [] ∨ (w.step r action).2.2.context.phase = .active := by
  have dispatch := dispatch_step w r action
  generalize w.step r action = out at dispatch ⊢
  cases dispatch with
  | refuse => exact Or.inl none
  | call => exact Or.inl (blocks_advance_of_nil none _ _)
  | resume =>
    refine Or.inl ?_
    unfold resume
    split
    · exact congrArg List.tail none
    · exact blocks_advance_of_nil none _ _
  | enter _ block mode =>
    obtain ⟨s, started, -, active⟩ := h.starts block mode
    rw [enter, started]
    exact Or.inr active
  | leave inside => simp [inBody, none] at inside
  | unwind inside => simp [atClient, none] at inside
  | decide _ b c asking => simp [asking?, none] at asking

theorem Deed.begun (deed : Deed w r action out) (fresh : out.2.2.context.phase = .uninitialized) :
    w.context.phase = .uninitialized := by
  cases deed with
  | keep same => exact same.phase.symm.trans fresh
  | log l v logged => exact logged.phase.symm.trans fresh
  | take l v stamp taken => exact taken.phase.symm.trans fresh
  | giveUp _ _ aborted => cases aborted.symm.trans fresh
  | begin _ active => cases active.symm.trans fresh
  | commit committed => cases committed.phase.symm.trans fresh
  | stop f stopped => exact stopped.phase.symm.trans fresh

theorem begun_step (h : (w.scope r).Holding) (begun : w.context.phase = .uninitialized → w.blocks = [])
    (action : WorkerAction α ε) (fresh : (w.step r action).2.2.context.phase = .uninitialized) :
    (w.step r action).2.2.blocks = [] := by
  have before := (deed_step h action).begun fresh
  rcases blocks_step_of_nil h (begun before) action with outside | active
  · exact outside
  · cases active.symm.trans fresh

end Worker

/-! ## Steps of a system -/

theorem Scope.published_rollback (s : Scope) : s.rollback.2.runtime.published = s.runtime.published := by
  have released : s.releaseWrites.2.runtime.published = s.runtime.published := rfl
  unfold rollback
  split
  · split
    · next given => rwa [given] at released
    · next given => rwa [given] at released
  · rfl

/-- What the client may ask for next: of a worker that is there, and counters that are handed over have to fit when
    a context is dropped. -/
def System.Admits (s : System) : Action α ε → Prop
  | .act owner action => ∀ w ∈ s.worker? owner, w.Allows s.runtime action
  | .drop owner => ∀ w ∈ s.worker? owner, w.isBusy = false → w.blocks = [] → w.context.tally ≠ {} →
      (s.runtime.published.add w.context.tally).isOk = true
  | .announce | .register _ => True

instance (s : System) (a : Action α ε) : Decidable (s.Admits a) :=
  match a with
  | .act owner action => inferInstanceAs (Decidable (∀ w ∈ s.worker? owner, w.Allows s.runtime action))
  | .drop owner => inferInstanceAs (Decidable (∀ w ∈ s.worker? owner, w.isBusy = false → w.blocks = [] →
      w.context.tally ≠ {} → (s.runtime.published.add w.context.tally).isOk = true))
  | .announce | .register _ => inferInstanceAs (Decidable True)

def Action.location? : Action α ε → Option Location
  | .act _ action => action.request?.bind Request.location?
  | _ => none

namespace System

variable {s : System}

theorem runs_register (room : Window.new? s.runtime.settings.window ≠ .error .capacity)
    (some : 0 < s.runtime.settings.window) (owner : OwnerId) (f : Fault) :
    (s.register (α := α) (ε := ε) owner).1 ≠ .faulted f := by
  have opened : ∃ window, Window.new? s.runtime.settings.window = .ok window := by
    unfold Window.new? at room ⊢
    rw [if_neg some.ne'] at room ⊢
    split at room
    · exact absurd rfl room
    · next small => exact ⟨_, if_neg small⟩
  obtain ⟨window, opened⟩ := opened
  unfold register
  split
  · simp [opened]
  · exact nofun

theorem runs_drop (orderly : s.Orderly) {owner : OwnerId}
    (admits : s.Admits (.drop owner : Action α ε)) (f : Fault) :
    (s.drop (α := α) (ε := ε) owner).1 ≠ .faulted f := by
  unfold drop
  split
  · exact nofun
  · next w here =>
    split
    · exact nofun
    · next idle =>
      simp only [Bool.or_eq_true, Bool.not_eq_true', not_or, Bool.not_eq_true, Bool.not_eq_false,
        List.isEmpty_iff] at idle
      obtain ⟨scope, rolled, -⟩ := (orderly.holding owner w here).rollback
      -- The rollback leaves the counters alone.
      have tally := (w.scope s.runtime).tally_rollback
      have published := (w.scope s.runtime).published_rollback
      rw [rolled] at tally published
      obtain ⟨scope', handed⟩ : ∃ scope', scope.publish = (.ok (), scope') := by
        refine Scope.publish_ok fun counted => exists_of_isOk ?_
        rw [tally] at counted ⊢
        rw [published]
        exact admits w here idle.1 idle.2 counted
      simp [rolled, handed]

end System

/-- A client uses a system properly in a run: the clock stays below the largest stamp, there are owner ids for all
    contexts and room for their windows, the fields that are accessed exist, and the client asks for nothing that
    it must not ask for. -/
structure ProperUse (s : System) (actions : List (Action α ε)) : Prop where
  clock : ∀ n ≤ actions.length, (s.run (actions.take n)).2.runtime.clock.now < lockBit - 1
  owners : actions.countP Action.isAnnounce < lockBit
  room : Window.new? s.runtime.settings.window ≠ .error .capacity
  fields : ∀ a ∈ actions, ∀ l ∈ a.location?, s.runtime.memory.Has l
  admits : ∀ n (inside : n < actions.length), (s.run (actions.take n)).2.Admits actions[n]

namespace ProperUse

variable {s : System} {actions rest : List (Action α ε)} {a : Action α ε}

theorem limits (proper : ProperUse s actions) : WithinLimits s actions where
  fields a member l target := by
    refine proper.fields a member l ?_
    unfold Action.target? at target
    split at target
    · exact target
    · cases target
  clock := proper.clock
  owners := proper.owners

theorem of_append (proper : ProperUse s (actions ++ rest)) : ProperUse s actions where
  clock := forall_take_of_append (P := fun pre => (s.run pre).2.runtime.clock.now < lockBit - 1) proper.clock
  owners := by
    have owners := proper.owners
    rw [List.countP_append] at owners
    omega
  room := proper.room
  fields a member := proper.fields a (List.mem_append_left _ member)
  admits n inside := by
    have admits := proper.admits n (by rw [List.length_append]; omega)
    rwa [List.take_append_of_le_length inside.le, List.getElem_append_left inside] at admits

/-- The last step of a run is admitted by the system that it finds. -/
theorem last (proper : ProperUse s (actions ++ [a])) : (s.run actions).2.Admits a := by
  have admits := proper.admits actions.length (by simp)
  rwa [List.take_left, List.getElem_concat_length rfl] at admits

end ProperUse

namespace Chronicle

variable {t : Chronicle} {m : Memory} {a : Action α ε}

/-! ## Runs -/

theorem smooth_act (h : t.Coherent (fun _ => True) m) (limit : t.system.runtime.clock.now < lockBit - 1)
    {owner : OwnerId} {w : Worker} (here : t.system.worker? owner = some w) (ready : w.Ready m)
    {action : WorkerAction α ε} (has : ∀ l ∈ action.request?.bind Request.location?, m.Has l)
    (allows : w.Allows t.system.runtime action) :
    Worker.Smooth m (w.step t.system.runtime action) := by
  have sound := (h.seats owner w here).sound
  have same : ∀ l, t.system.runtime.memory.Has l ↔ m.Has l := h.ledger.shape.has
  have aims : ∀ l ∈ w.pending.bind Pending.location?, t.system.runtime.memory.Has l := fun l member =>
    (same l).mpr (ready.aims l member)
  have smooth : Worker.Smooth t.system.runtime.memory (w.step t.system.runtime action) := by
    refine Worker.smooth_step (sound.reliable limit) ⟨aims, ready.begun⟩ (fun candidate next waiting => ?_) allows
      fun l member => (same l).mpr (has l member)
    refine sound.expects waiting fun l member => aims l ?_
    rw [waiting]
    exact member
  exact ⟨smooth.runs, fun l member => (same l).mp (smooth.aims l member)⟩

/-- A step that is admitted meets no fault, if every worker is ready, and it leaves every worker ready. -/
theorem smooth_step (h : t.Coherent (fun _ => True) m) (orderly : t.system.Orderly)
    (ready : ∀ o w, t.system.worker? o = some w → w.Ready m)
    (limit : t.system.runtime.clock.now < lockBit - 1) (first : 0 < t.system.runtime.nextOwner)
    (ids : a.isAnnounce = true → t.system.runtime.nextOwner < lockBit)
    (room : Window.new? t.system.runtime.settings.window ≠ .error .capacity)
    (has : ∀ l ∈ a.location?, m.Has l) (admits : t.system.Admits a) :
    (∀ f, (t.system.step a).1 ≠ .faulted f) ∧
      ∀ o w, (t.step a).system.worker? o = some w → w.Ready m := by
  refine ⟨fun f => ?_, fun o w there => ?_⟩
  · cases a with
    | announce => simp [System.step, System.announce, Runtime.allocateOwner_eq first (ids rfl)]
    | register owner => exact System.runs_register room h.room owner f
    | drop owner => exact System.runs_drop orderly admits f
    | act owner action =>
      cases here : t.system.worker? owner with
      | none => simp [System.step, System.act, here]
      | some w =>
        rw [response_step_act here]
        exact (smooth_act h limit here (ready owner w here) has (admits w here)).runs f
  · rw [system_step] at there
    rcases orderly.worker_cases there with here | ⟨action, w₀, rfl, here, rfl⟩ | ⟨-, window, rfl⟩
    · exact ready o w here
    · have before := ready o w₀ here
      have smooth := smooth_act h limit here before has (admits w₀ here)
      exact ⟨smooth.aims, Worker.begun_step (orderly.holding o w₀ here) before.begun action⟩
    · exact .registered ..

variable {settings : Settings} {r : Runtime}

theorem smooth_run (new : Runtime.new? settings = .ok r) (m : Memory) {actions : List (Action α ε)}
    (proper : ProperUse (start r m).system actions) :
    (∀ response ∈ ((start r m).system.run actions).1, ∀ f, response ≠ .faulted f) ∧
      ∀ o w, ((start r m).run actions).system.worker? o = some w → w.Ready m := by
  induction actions using List.reverseRecOn with
  | nil =>
    refine ⟨List.forall_mem_nil _, fun o w there => ?_⟩
    simp [start, System.worker?] at there
  | append_singleton actions a ih =>
    obtain ⟨runs, ready⟩ := ih proper.of_append
    obtain ⟨coherent, ids, same⟩ := coherent_run_any new proper.of_append.limits
    have orderly := (orderly_run new m proper.of_append.owners).1
    have limit := proper.of_append.clock actions.length (Nat.le_refl _)
    have admits := proper.last
    have owners := proper.owners
    rw [List.take_length, ← system_run] at limit
    rw [← system_run] at admits
    rw [List.countP_append, List.countP_singleton] at owners
    have room : Window.new? ((start r m).run actions).system.runtime.settings.window ≠ .error .capacity := by
      rw [same, ← (Runtime.of_new? new).1]
      exact proper.room
    have last := smooth_step coherent orderly ready limit (by omega) (fun own => by
      rw [if_pos own] at owners
      omega) room (proper.fields a (List.mem_append_right _ (List.mem_singleton_self a))) admits
    refine ⟨fun response member => ?_, run_snoc (start r m) actions a ▸ last.2⟩
    rw [System.run_snoc, ← system_run] at member
    rcases List.mem_append.mp member with before | now
    · exact runs response before
    · rw [List.mem_singleton.mp now]
      exact last.1

end Chronicle

/-- Valid settings make a runtime. -/
theorem Runtime.new?_of_valid {settings : Settings} (valid : settings.validate = .ok ()) :
    ∃ r, Runtime.new? settings = .ok r := by
  have bits : 0 < settings.tableBits ∧ settings.tableBits ≤ Settings.maxTableBits := by
    unfold Settings.validate at valid
    split at valid
    · cases valid
    · next inside =>
      simp only [Bool.or_eq_true, decide_eq_true_eq, not_or] at inside
      omega
  unfold Settings.maxTableBits at bits
  have made : ∃ table, LockTable.new? settings.tableBits = .ok table := by
    have inside : 0 < settings.tableBits ∧ settings.tableBits < 64 := by omega
    have small : settings.tableBits < 60 := by omega
    rw [LockTable.new?, dif_pos inside, if_pos small]
    exact ⟨_, rfl⟩
  obtain ⟨table, made⟩ := made
  simp only [Runtime.new?, valid, made]
  exact ⟨_, rfl⟩

/-- Valid settings make a runtime, and whatever any number of contexts do on it in whatever order, no step meets a
    fault, as long as the client uses the system properly: the fields that are accessed exist, and accesses are
    made only while the attempt is active or after the engine has aborted it; a commit follows a first start; the
    clock stays below the largest stamp, the owner ids are not used up, no counter overflows, and there is room
    for the windows. -/
theorem proper_use_meets_no_fault {settings : Settings} (valid : settings.validate = .ok ()) :
    ∃ r, Runtime.new? settings = .ok r ∧ ∀ (m : Memory) (actions : List (Action α ε)),
      ProperUse (Chronicle.start r m).system actions →
        ∀ response ∈ ((Chronicle.start r m).system.run actions).1, ∀ f, response ≠ .faulted f := by
  obtain ⟨r, new⟩ := Runtime.new?_of_valid valid
  exact ⟨r, new, fun m actions proper => (Chronicle.smooth_run new m proper).1⟩

/-- An elastic context overtakes a regular one, which extends its snapshot and writes; the elastic one then meets
    its lock, is aborted, and asks again; the regular one commits, hands its counters over and is dropped. -/
theorem proper_use_meets_no_fault_of_two :
    let actions : List (Action Unit Unit) :=
      [.announce, .announce, .register ⟨1⟩, .register ⟨2⟩,
       .act ⟨1⟩ (.call (.start 0 .regular)), .act ⟨1⟩ (.call (.read ⟨16, 0⟩ .u64)),
       .act ⟨2⟩ (.call (.start 0 .elastic)), .act ⟨2⟩ (.call (.read ⟨16, 1⟩ .u64)),
       .act ⟨2⟩ (.call (.write ⟨16, 1⟩ (.u64 7))), .act ⟨2⟩ (.call .commit),
       .act ⟨1⟩ (.call (.read ⟨16, 1⟩ .u64)), .act ⟨1⟩ .resume, .act ⟨1⟩ (.call (.write ⟨16, 0⟩ (.u64 5))),
       .act ⟨2⟩ (.call (.start 0 .elastic)), .act ⟨2⟩ (.call (.read ⟨16, 0⟩ .u64)), .act ⟨2⟩ .resume,
       .act ⟨2⟩ (.call (.read ⟨16, 0⟩ .u64)), .act ⟨1⟩ (.call .commit), .act ⟨1⟩ (.call .publish), .drop ⟨1⟩]
    ProperUse (Chronicle.start smallRuntime pair).system actions ∧
      ((Chronicle.start smallRuntime pair).system.run actions).1.drop 10 =
        [.standing (.extended ⟨1⟩ 0 1), .replied (.value (.u64 7)), .replied .done, .replied .done,
         .standing (.abort ⟨2⟩ 0 .lockedByOther), .replied (.aborted .lockedByOther),
         .replied (.aborted .lockedByOther), .replied (.verdict true), .replied .done, .replied .done] ∧
      ∀ response ∈ ((Chronicle.start smallRuntime pair).system.run actions).1, ∀ f, response ≠ .faulted f := by
  intro actions
  have proper : ProperUse (Chronicle.start smallRuntime pair).system actions :=
    ⟨by decide +kernel, by decide, by decide, by decide +kernel, by decide +kernel⟩
  obtain ⟨r, new, runs⟩ := proper_use_meets_no_fault (α := Unit) (ε := Unit)
    (show Settings.validate { tableBits := 4 } = .ok () from rfl)
  cases smallRuntime_new.symm.trans new
  exact ⟨proper, by decide +kernel, runs pair actions proper⟩

end TransactionalMemory
