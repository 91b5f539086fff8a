import TransactionalMemory.Proofs.Aborted
import TransactionalMemory.Proofs.Ownership

/-! # A failed attempt leaves no trace

An attempt that fails, or is given up, stores nothing, and every slot that it held carries again the stamp
that it had when the attempt took it (`failed_attempt_leaves_no_trace`).  A call may stand at events before
it fails, and others may act there; what they do is theirs, so everything is said of the steps of the
owner alone.

The stamp that a context remembers for a slot is the one that the slot had when the context took it, and
the slot has been held ever since (`Chronicle.heldSince_run`).
-/

namespace TransactionalMemory

variable {α ε : Type}

/-! ## How long a slot has been held -/

/-- The owner has held the slot ever since it took it at some moment of the run, with this stamp on it. -/
def HeldSince (t₀ : Chronicle) (actions : List (Action α ε)) (owner : OwnerId) (slot stamp : Nat) : Prop :=
  ∃ n < actions.length, (t₀.run (actions.take n)).system.runtime.table.word slot = .free stamp ∧
    ∀ k, n < k → k ≤ actions.length →
      (t₀.run (actions.take k)).system.runtime.table.word slot = .held owner

section

variable {t₀ : Chronicle} {actions : List (Action α ε)} {a : Action α ε} {owner : OwnerId} {slot stamp : Nat}

theorem HeldSince.taken (free : (t₀.run actions).system.runtime.table.word slot = .free stamp)
    (held : (t₀.run (actions ++ [a])).system.runtime.table.word slot = .held owner) :
    HeldSince t₀ (actions ++ [a]) owner slot stamp := by
  refine ⟨actions.length, by simp, by rwa [List.take_left], fun k later le => ?_⟩
  rw [List.take_of_length_le (by simp only [List.length_append, List.length_singleton]; omega)]
  exact held

theorem HeldSince.snoc (h : HeldSince t₀ actions owner slot stamp)
    (held : (t₀.run (actions ++ [a])).system.runtime.table.word slot = .held owner) :
    HeldSince t₀ (actions ++ [a]) owner slot stamp := by
  obtain ⟨n, before, free, since⟩ := h
  refine ⟨n, by simp only [List.length_append, List.length_singleton]; omega, ?_, fun k later le => ?_⟩
  · rwa [List.take_append_of_le_length (Nat.le_of_lt before)]
  · by_cases old : k ≤ actions.length
    · rw [List.take_append_of_le_length old]
      exact since k later old
    · rw [List.take_of_length_le (by simp only [List.length_append, List.length_singleton]; omega)]
      exact held

end

/-- A stamp that a context remembers after a turn was remembered before it, or was on the free slot. -/
theorem System.Turn.stamp?_cases {s s' : System} {new : Bool} (turn : Turn s new s') (h : s.Orderly)
    {o : OwnerId} {w' : Worker} (there : s'.worker? o = some w') {slot stamp : Nat}
    (own : w'.context.writes.stamp? slot = some stamp) :
    (∃ w, s.worker? o = some w ∧ w.context.writes.stamp? slot = some stamp) ∨
      s.runtime.table.word slot = .free stamp := by
  cases turn with
  | worked owner w scope turned =>
    by_cases other : o = owner
    · subst other
      rw [turned.self w' there] at own
      rcases turned.works.handles.stamp?_cases (h.holding o w turned.here) own with own | free
      · exact Or.inl ⟨w, turned.here, own⟩
      · exact Or.inr free
    · rw [turned.others o other] at there
      exact Or.inl ⟨w', there, own⟩
  | registered owner window member =>
    rw [worker?_setWorker] at there
    split at there
    · cases there
      cases own
    · exact Or.inl ⟨w', there, own⟩
  | _ => exact Or.inl ⟨w', there, own⟩

theorem Chronicle.heldSince_run {settings : Settings} {r : Runtime} (new : Runtime.new? settings = .ok r)
    (m : Memory) {actions : List (Action α ε)} (owners : actions.countP Action.isAnnounce < lockBit)
    {o : OwnerId} {w : Worker} (there : ((start r m).run actions).system.worker? o = some w)
    {slot stamp : Nat} (own : w.context.writes.stamp? slot = some stamp) :
    HeldSince (start r m) actions o slot stamp := by
  induction actions using List.reverseRecOn generalizing w with
  | nil =>
    have nobody : ((start r m).run ([] : List (Action α ε))).system.worker? o = none := by
      simp [start, System.worker?]
    rw [nobody] at there
    cases there
  | append_singleton actions a ih =>
    have before : actions.countP Action.isAnnounce < lockBit := by
      rw [List.countP_append] at owners
      omega
    obtain ⟨orderly, ids⟩ := orderly_run new m before
    have after := (orderly_run new m owners).1
    have held := (after.word_iff there slot).mpr (by rw [RedoLog.owns, own]; rfl)
    have turn := turn_next orderly ids owners
    rw [run_snoc] at there
    rcases turn.stamp?_cases orderly there own with ⟨w₀, here, own⟩ | free
    · exact (ih before here own).snoc held
    · exact .taken free held

/-! ## Traces -/

/-- After the actions, the attempt of the owner is given up: nothing is stored, each slot that the owner
    held carries again the stamp that it had when the owner took it, and no other slot changes. -/
structure LeavesNoTrace (t₀ : Chronicle) (actions : List (Action α ε)) (owner : OwnerId) (s' : System) :
    Prop where
  memory : s'.runtime.memory = (t₀.run actions).system.runtime.memory
  clock : s'.runtime.clock = (t₀.run actions).system.runtime.clock
  restored : ∀ slot, (t₀.run actions).system.runtime.table.word slot = .held owner →
    ∃ stamp, HeldSince t₀ actions owner slot stamp ∧ s'.runtime.table.word slot = .free stamp
  others : ∀ slot, (t₀.run actions).system.runtime.table.word slot ≠ .held owner →
    s'.runtime.table.word slot = (t₀.run actions).system.runtime.table.word slot
  forgotten : ∀ w', s'.worker? owner = some w' → w'.context.writes = {}

theorem LeavesNoTrace.of_withdrawn {settings : Settings} {r : Runtime}
    (new : Runtime.new? settings = .ok r) {m : Memory} {actions : List (Action α ε)}
    (owners : actions.countP Action.isAnnounce < lockBit) {owner : OwnerId} {w : Worker}
    (here : ((Chronicle.start r m).run actions).system.worker? owner = some w) {scope : Scope}
    (withdrawn : Scope.Withdrawn (w.scope ((Chronicle.start r m).run actions).system.runtime) scope)
    {s' : System} (runtime : s'.runtime = scope.runtime)
    (self : ∀ w', s'.worker? owner = some w' → w'.context = scope.context) :
    LeavesNoTrace (Chronicle.start r m) actions owner s' := by
  have orderly := (Chronicle.orderly_run new m owners).1
  have held := orderly.holding owner w here
  have same := orderly.owners owner w here
  refine ⟨runtime ▸ withdrawn.memory, runtime ▸ withdrawn.clock, ?_, ?_, ?_⟩
  · intro slot word
    rw [← same] at word
    obtain ⟨stamp, own⟩ := held.stamp?_of_held word
    refine ⟨stamp, Chronicle.heldSince_run new m owners here own, ?_⟩
    rw [runtime, withdrawn.given.word slot, own]
    rfl
  · intro slot word
    rw [← same] at word
    rw [runtime, withdrawn.given.word slot, held.stamp?_of_not_held word]
    rfl
  · intro w' there
    rw [self w' there]
    exact withdrawn.empty

/-- A step of the owner stores nothing and gives nothing back; it may take free slots, and the clock has
    moved by some ticks. -/
structure OnlyTakes (owner : OwnerId) (ticks : Nat) (s s' : System) : Prop where
  memory : s'.runtime.memory = s.runtime.memory
  clock : s'.runtime.clock.now = s.runtime.clock.now + ticks
  slots : ∀ slot, s'.runtime.table.word slot = s.runtime.table.word slot ∨
    (∃ stamp, s.runtime.table.word slot = .free stamp) ∧ s'.runtime.table.word slot = .held owner

/-! ## Calls with the steps of others in between -/

/-- Whose worker an action is about. -/
def Action.owner? : Action α ε → Option OwnerId
  | announce => none
  | register o | drop o | act o _ => some o

/-- A call of a worker, as far as it has come, with the last response to it: its first step, and then, as
    long as it stands at events, its own further steps and any steps of others. -/
inductive Call (owner : OwnerId) (action : WorkerAction α ε) (t : Chronicle) :
    List (Action α ε) → Response α ε → Prop where
  | begin : Call owner action t [.act owner action] (t.system.step (.act owner action)).1
  | beside {sofar : List (Action α ε)} {response : Response α ε} (a : Action α ε)
      (call : Call owner action t sofar response) (standing : response.isOpen = true)
      (other : a.owner? ≠ some owner) : Call owner action t (sofar ++ [a]) response
  | resume {sofar : List (Action α ε)} {response : Response α ε}
      (call : Call owner action t sofar response) (standing : response.isOpen = true) :
      Call owner action t (sofar ++ [.act owner .resume])
        ((t.run sofar).system.step (.act owner .resume : Action α ε)).1

/-- In a call so far, the steps of the owner have only taken free slots, and the owner has kept all that it
    held.  The first step may have moved the clock. -/
structure Quietly (t : Chronicle) (owner : OwnerId) (ticks : Nat) (sofar : List (Action α ε)) : Prop where
  steps : ∀ pre a post, sofar = pre ++ a :: post → a.owner? = some owner →
    OnlyTakes owner (if pre = [] then ticks else 0) (t.run pre).system (t.run (pre ++ [a])).system
  kept : ∀ pre post, sofar = pre ++ post → ∀ slot,
    (t.run pre).system.runtime.table.word slot = .held owner →
      (t.run sofar).system.runtime.table.word slot = .held owner

section

variable {t : Chronicle} {owner : OwnerId} {ticks : Nat} {sofar : List (Action α ε)} {a : Action α ε}

theorem Quietly.nil : Quietly t owner ticks ([] : List (Action α ε)) where
  steps _ _ _ split := absurd split.symm (List.append_ne_nil_of_right_ne_nil _ nofun)
  kept pre post split slot held := by
    obtain ⟨rfl, rfl⟩ := List.append_eq_nil_iff.mp split.symm
    exact held

theorem Quietly.snoc (q : Quietly t owner ticks sofar)
    (one : a.owner? = some owner →
      OnlyTakes owner (if sofar = [] then ticks else 0) (t.run sofar).system (t.run (sofar ++ [a])).system)
    (held : ∀ slot, (t.run sofar).system.runtime.table.word slot = .held owner →
      (t.run (sofar ++ [a])).system.runtime.table.word slot = .held owner) :
    Quietly t owner ticks (sofar ++ [a]) where
  steps pre b post split own := by
    rcases snoc_eq_append_cons split with ⟨rfl, rfl⟩ | ⟨post', split⟩
    · exact one own
    · exact q.steps pre b post' split own
  kept pre post split slot word := by
    cases post using List.reverseRecOn with
    | nil =>
      rw [split, List.append_nil]
      exact word
    | append_singleton post b =>
      rw [← List.append_assoc] at split
      exact held slot (q.kept pre post (List.append_inj' split rfl).1 slot word)

theorem OnlyTakes.held {s s' : System} (one : OnlyTakes owner ticks s s') {slot : Nat}
    (word : s.runtime.table.word slot = .held owner) : s'.runtime.table.word slot = .held owner := by
  rcases one.slots slot with same | ⟨-, held⟩
  · rw [same, word]
  · exact held

theorem OnlyTakes.of_quiet {s s' : System} {w : Worker} {scope : Scope} (own : w.context.owner = owner)
    (quiet : Scope.Quiet (w.scope s.runtime) ticks scope) (runtime : s'.runtime = scope.runtime) :
    OnlyTakes owner ticks s s' := by
  subst own
  exact ⟨runtime ▸ quiet.memory, runtime ▸ quiet.clock, runtime ▸ quiet.slots⟩

end

/-! ## Steps of one worker and of others -/

namespace System

variable {s : System} {owner : OwnerId}

theorem act_eq {w : Worker} (here : s.worker? owner = some w) (action : WorkerAction α ε) :
    s.act owner action =
      let out := w.step s.runtime action
      (out.1, setWorker { s with runtime := out.2.1 } owner out.2.2) := by
  simp only [act, here]

/-- A worker stays as it is while others act. -/
theorem worker?_step_of_ne {a : Action α ε} (other : a.owner? ≠ some owner) :
    (s.step a).2.worker? owner = s.worker? owner := by
  cases a with
  | announce =>
    simp only [step, announce]
    split <;> rfl
  | register o =>
    have differs : o ≠ owner := fun same => other (congrArg some same)
    simp only [step, register]
    split
    · split
      · rfl
      · exact worker?_setWorker.trans (if_neg differs)
    · rfl
  | drop o =>
    have differs : o ≠ owner := fun same => other (congrArg some same)
    have erased : ∀ r, worker? ⟨r, s.workers.erase o.id, s.announced⟩ owner = s.worker? owner := fun r =>
      (worker?_erase r).trans (if_neg differs)
    simp only [step, drop]
    split
    · rfl
    · split
      · rfl
      · split
        · exact erased _
        · split <;> exact erased _
  | act o action =>
    have differs : o ≠ owner := fun same => other (congrArg some same)
    simp only [step]
    cases here : s.worker? o with
    | none => simp only [act, here]
    | some w =>
      rw [act_eq here]
      exact worker?_setWorker.trans (if_neg differs)

/-- A worker keeps its slots while others act. -/
theorem Orderly.held_of_others {s' : System} (h : s.Orderly) (h' : s'.Orderly) {w : Worker}
    (here : s.worker? owner = some w) (same : s'.worker? owner = s.worker? owner) {slot : Nat}
    (word : s.runtime.table.word slot = .held owner) : s'.runtime.table.word slot = .held owner :=
  (h'.word_iff (same.trans here) slot).mpr ((h.word_iff here slot).mp word)

/-! ### Two systems that differ in one worker -/

section

variable {s' : System}

/-- The systems are the same but for the worker of one owner. -/
structure Beside (owner : OwnerId) (s s' : System) : Prop where
  runtime : s'.runtime = s.runtime
  announced : s'.announced = s.announced
  others : ∀ o, o ≠ owner → s'.worker? o = s.worker? o

theorem Beside.setWorker (b : Beside owner s s') (r : Runtime) (o : OwnerId) (w : Worker) :
    Beside owner (System.setWorker { s with runtime := r } o w)
      (System.setWorker { s' with runtime := r } o w) where
  runtime := rfl
  announced := b.announced
  others k other := by
    rw [worker?_setWorker, worker?_setWorker]
    split
    · rfl
    · exact b.others k other

/-- A step of others is answered the same, and leaves the systems the same but for the one worker. -/
theorem Beside.step (b : Beside owner s s') {a : Action α ε} (other : a.owner? ≠ some owner) :
    (s'.step a).1 = (s.step a).1 ∧ Beside owner (s.step a).2 (s'.step a).2 := by
  obtain ⟨r, workers, announced⟩ := s
  obtain ⟨r', workers', announced'⟩ := s'
  obtain ⟨rfl, rfl, others⟩ := b
  have same : Beside owner ⟨r', workers, announced'⟩ ⟨r', workers', announced'⟩ := ⟨rfl, rfl, others⟩
  cases a with
  | announce =>
    simp only [System.step, announce]
    split <;> exact ⟨rfl, rfl, rfl, others⟩
  | register o =>
    simp only [System.step, register]
    split
    · split
      · exact ⟨rfl, rfl, rfl, others⟩
      · have withdrawn : Beside owner ⟨r', workers, announced'.erase o⟩ ⟨r', workers', announced'.erase o⟩ :=
          ⟨rfl, rfl, others⟩
        exact ⟨rfl, withdrawn.setWorker r' o _⟩
    · exact ⟨rfl, same⟩
  | drop o =>
    have differs : o ≠ owner := fun same => other (congrArg some same)
    have gone : ∀ r, Beside owner ⟨r, workers.erase o.id, announced'⟩ ⟨r, workers'.erase o.id, announced'⟩ := by
      intro r
      refine ⟨rfl, rfl, fun k unlike => ?_⟩
      have same := others k unlike
      rw [worker?_erase (s := ⟨r', workers, announced'⟩) r, worker?_erase (s := ⟨r', workers', announced'⟩) r,
        same]
    simp only [System.step, drop, others o differs]
    split
    · exact ⟨rfl, same⟩
    · split
      · exact ⟨rfl, same⟩
      · split
        · exact ⟨rfl, gone _⟩
        · split <;> exact ⟨rfl, gone _⟩
  | act o action =>
    have differs : o ≠ owner := fun same => other (congrArg some same)
    have here := others o differs
    simp only [System.step, act, here]
    cases worker? ⟨r', workers, announced'⟩ o with
    | none => exact ⟨rfl, same⟩
    | some w => exact ⟨rfl, same.setWorker _ o _⟩

theorem Beside.trans {s'' : System} (b : Beside owner s s') (b' : Beside owner s' s'') : Beside owner s s'' where
  runtime := b'.runtime.trans b.runtime
  announced := b'.announced.trans b.announced
  others o other := (b'.others o other).trans (b.others o other)

theorem Beside.symm (b : Beside owner s s') : Beside owner s' s where
  runtime := b.runtime.symm
  announced := b.announced.symm
  others o other := (b.others o other).symm

theorem beside_setWorker (s : System) (owner : OwnerId) (r : Runtime) (w : Worker) :
    Beside owner { s with runtime := r } (System.setWorker { s with runtime := r } owner w) where
  runtime := rfl
  announced := rfl
  others _ other := worker?_setWorker.trans (if_neg other.symm)

end

end System

/-! ## Calls that fail -/

/-- The worker of the owner is in the middle of a call on an active attempt. -/
def System.InCall (s : System) (owner : OwnerId) : Prop :=
  ∃ w rest, s.worker? owner = some w ∧ w.pending = some rest ∧ rest.isGiveUp = false ∧
    w.context.phase = .active

theorem Response.isFailure_of_isOpen {response : Response α ε} (isOpen : response.isOpen = true) :
    response.isFailure = false := by
  cases response with
  | standing e => simpa [Response.isOpen, isFailure] using isOpen
  | _ => cases isOpen

section

variable {t : Chronicle} {owner : OwnerId} {w : Worker}

theorem step_of_tried (orderly : t.system.Orderly) (here : t.system.worker? owner = some w)
    (active : w.context.phase = .active) {action : WorkerAction α ε} {ticks : Nat}
    (tried : Worker.Tried w t.system.runtime ticks (w.step t.system.runtime action))
    (standing : (t.system.step (.act owner action)).1.isOpen = true) :
    OnlyTakes owner ticks t.system (t.step (.act owner action)).system ∧
      (t.step (.act owner action)).system.InCall owner := by
  simp only [System.step, System.act_eq here] at standing
  obtain ⟨quiet, rest, waiting, call⟩ := tried.standing standing
  rw [Chronicle.step_act here]
  exact ⟨.of_quiet (orderly.owners owner w here) quiet rfl, _, rest,
    System.worker?_setWorker.trans (if_pos rfl), waiting, call, quiet.phase.trans active⟩

variable {action : WorkerAction α ε} {sofar : List (Action α ε)} {response : Response α ε}

theorem Call.head (call : Call owner action t sofar response) :
    ∃ rest, sofar = .act owner action :: rest := by
  induction call with
  | begin => exact ⟨[], rfl⟩
  | beside a call standing other ih =>
    obtain ⟨rest, rfl⟩ := ih
    exact ⟨rest ++ [a], rfl⟩
  | resume call standing ih =>
    obtain ⟨rest, rfl⟩ := ih
    exact ⟨rest ++ [.act owner .resume], rfl⟩

theorem Call.ne_nil (call : Call owner action t sofar response) : sofar ≠ [] := by
  obtain ⟨rest, rfl⟩ := call.head
  exact List.cons_ne_nil _ rest

theorem Call.quietly (call : Call owner action t sofar response)
    (orderly : ∀ pre post, sofar = pre ++ post → (t.run pre).system.Orderly)
    (tries : action.tries = true) (here : t.system.worker? owner = some w)
    (active : w.context.phase = .active) (standing : response.isOpen = true) :
    Quietly t owner action.commits.toNat sofar ∧ (t.run sofar).system.InCall owner := by
  induction call with
  | begin =>
    have start : t.system.Orderly := orderly [] _ rfl
    obtain ⟨one, inCall⟩ := step_of_tried start here active
      (Worker.step_tries (start.holding owner w here) tries) standing
    refine ⟨?_, inCall⟩
    rw [← List.nil_append [_]]
    exact Quietly.nil.snoc (fun _ => one) fun slot word => one.held word
  | @beside sofar response a call open_ other ih =>
    have before : ∀ pre post, sofar = pre ++ post → (t.run pre).system.Orderly := fun pre post split =>
      orderly pre (post ++ [a]) (by rw [split, List.append_assoc])
    obtain ⟨quietly, w', rest, there, waiting, call, active'⟩ := ih before open_
    have same : (t.run (sofar ++ [a])).system.worker? owner = (t.run sofar).system.worker? owner := by
      rw [Chronicle.run_snoc, Chronicle.system_step]
      exact System.worker?_step_of_ne other
    have now := before sofar [] (List.append_nil _).symm
    have then_ := orderly (sofar ++ [a]) [] (List.append_nil _).symm
    exact ⟨quietly.snoc (fun own => absurd own other) fun slot => now.held_of_others then_ there same,
      w', rest, same.trans there, waiting, call, active'⟩
  | @resume sofar response call_ open_ ih =>
    have before : ∀ pre post, sofar = pre ++ post → (t.run pre).system.Orderly := fun pre post split =>
      orderly pre (post ++ [.act owner .resume]) (by rw [split, List.append_assoc])
    obtain ⟨quietly, w', rest, there, waiting, call, active'⟩ := ih before open_
    have now := before sofar [] (List.append_nil _).symm
    have stepped : w'.step (α := α) (ε := ε) (t.run sofar).system.runtime .resume =
        w'.resume rest (t.run sofar).system.runtime := Worker.step_resume_of_waiting waiting
    rcases Worker.resume_tries (α := α) (ε := ε) (now.holding owner w' there) active' call with
      tried | ⟨c, closed, -⟩
    · rw [← stepped] at tried
      obtain ⟨one, inCall⟩ := step_of_tried now there active' tried standing
      rw [Chronicle.run_snoc]
      refine ⟨quietly.snoc (fun _ => ?_) fun slot word => ?_, inCall⟩
      · rw [if_neg call_.ne_nil, Chronicle.run_snoc]
        exact one
      · rw [Chronicle.run_snoc]
        exact one.held word
    · simp only [System.step, System.act_eq there, stepped, closed] at standing
      cases standing

/-- A call on an active attempt fails with a step that gives the attempt up. -/
theorem Call.failed (call : Call owner action t sofar response)
    (orderly : ∀ pre post, sofar = pre ++ post → (t.run pre).system.Orderly)
    (tries : action.tries = true) (here : t.system.worker? owner = some w)
    (active : w.context.phase = .active) (failure : response.isFailure = true) :
    ∃ rest w₁ c, let waited := .act owner action :: rest
      sofar = waited ++ [.act owner .resume] ∧ Quietly t owner action.commits.toNat waited ∧
      (t.run waited).system.worker? owner = some w₁ ∧
      response = ((t.run waited).system.step (.act owner .resume : Action α ε)).1 ∧
      Worker.Failed (α := α) (ε := ε) w₁ (t.run waited).system.runtime c
        (w₁.step (t.run waited).system.runtime .resume) := by
  cases call with
  | begin =>
    have start : t.system.Orderly := orderly [] _ rfl
    have tried := Worker.step_tries (start.holding owner w here) tries
    simp only [System.step, System.act_eq here] at failure
    rw [tried.steady active] at failure
    cases failure
  | beside a call standing =>
    rw [Response.isFailure_of_isOpen standing] at failure
    cases failure
  | @resume waited response call standing =>
    have before : ∀ pre post, waited = pre ++ post → (t.run pre).system.Orderly := fun pre post split =>
      orderly pre (post ++ [.act owner .resume]) (by rw [split, List.append_assoc])
    obtain ⟨quietly, w₁, rest, there, waiting, inCall, active₁⟩ :=
      call.quietly before tries here active standing
    have now := before waited [] (List.append_nil _).symm
    have stepped : w₁.step (α := α) (ε := ε) (t.run waited).system.runtime .resume =
        w₁.resume rest (t.run waited).system.runtime := Worker.step_resume_of_waiting waiting
    rcases Worker.resume_tries (α := α) (ε := ε) (now.holding owner w₁ there) active₁ inCall with
      tried | ⟨c, -, failed⟩
    · simp only [System.step, System.act_eq there, stepped, tried.steady active₁] at failure
      cases failure
    · obtain ⟨rest', rfl⟩ := call.head
      exact ⟨rest', w₁, c, rfl, quietly, there, rfl, stepped ▸ failed⟩

end

/-! ## After a failure -/

/-- The owner's context is dropped, or its worker takes a step of the given kind. -/
def Action.dropsOr (owner : OwnerId) (kind : WorkerAction α ε → Response α ε → Bool) :
    Action α ε → Response α ε → Bool
  | drop o, response => o = owner && !response.isRefused
  | act o action, response => o = owner && kind action response
  | _, _ => false

/-- The attempt of the owner answers every access with the conflict, a commit with failure, and a rollback
    with nothing done, and none of these changes anything. -/
def System.Repeats (α ε : Type) (s : System) (owner : OwnerId) (c : Conflict) : Prop :=
  ∃ w, s.worker? owner = some w ∧ (w.isBusy = false →
    (∀ request : Request, request.isAccess = true →
      w.step (α := α) (ε := ε) s.runtime (.call request) = (.replied (.aborted c), s.runtime, w)) ∧
    w.step (α := α) (ε := ε) s.runtime (.call .commit) = (.replied (.verdict false), s.runtime, w) ∧
    w.step (α := α) (ε := ε) s.runtime (.call .rollback) = (.replied .done, s.runtime, w))

section

variable {t : Chronicle} {owner : OwnerId} {w : Worker} {c : Conflict}

theorem Worker.Aborted.repeats {s : System} (aborted : w.Aborted c) (here : s.worker? owner = some w) :
    s.Repeats α ε owner c :=
  ⟨w, here, fun free => ⟨fun _ access => aborted.step_access free access _, aborted.step_commit free _,
    aborted.step_rollback free _⟩⟩

/-- An aborted attempt stays aborted until its context is dropped or begins another one. -/
theorem aborted_run {actions : List (Action α ε)}
    (orderly : ∀ pre post, actions = pre ++ post → (t.run pre).system.Orderly)
    (here : t.system.worker? owner = some w) (aborted : w.Aborted c)
    (still : ∀ pre a post, actions = pre ++ a :: post →
      a.dropsOr owner Seat.begins ((t.run pre).system.step a).1 = false) :
    ∃ w', (t.run actions).system.worker? owner = some w' ∧ w'.Aborted c := by
  induction actions using List.reverseRecOn with
  | nil => exact ⟨w, here, aborted⟩
  | append_singleton actions a ih =>
    have before : ∀ pre post, actions = pre ++ post → (t.run pre).system.Orderly := fun pre post split =>
      orderly pre (post ++ [a]) (by rw [split, List.append_assoc])
    obtain ⟨w', there, aborted'⟩ := ih before fun pre b post split =>
      still pre b (post ++ [a]) (by rw [split, List.append_assoc, List.cons_append])
    have now := before actions [] (List.append_nil _).symm
    have last := still actions a [] rfl
    rw [Chronicle.run_snoc, Chronicle.system_step]
    by_cases own : a.owner? = some owner
    · cases a with
      | announce => cases own
      | register o =>
        cases own
        simp only [System.step, System.register]
        split
        · next member =>
          -- An owner whose context is there is not announced any more.
          rw [(now.expected owner member).2] at there
          cases there
        · exact ⟨w', there, aborted'⟩
      | drop o =>
        cases own
        rcases now.drop_cases (α := α) (ε := ε) owner with ⟨-, same⟩ | ⟨accepted, -⟩
        · exact ⟨w', (congrArg (System.worker? · owner) same).trans there, aborted'⟩
        · simp [Action.dropsOr, System.step, accepted] at last
      | act o action =>
        cases own
        simp only [Action.dropsOr, System.step, System.act_eq there, decide_true, Bool.true_and] at last
        simp only [System.step, System.act_eq there]
        exact ⟨_, System.worker?_setWorker.trans (if_pos rfl), aborted'.step last⟩
    · exact ⟨w', (System.worker?_step_of_ne own).trans there, aborted'⟩

end

/-! ## Failed attempts -/

theorem LeavesNoTrace.of_act {settings : Settings} {r : Runtime} (new : Runtime.new? settings = .ok r)
    {m : Memory} {actions : List (Action α ε)} (owners : actions.countP Action.isAnnounce < lockBit)
    {owner : OwnerId} {w : Worker}
    (here : ((Chronicle.start r m).run actions).system.worker? owner = some w) {action : WorkerAction α ε}
    (withdrawn : Scope.Withdrawn (w.scope ((Chronicle.start r m).run actions).system.runtime)
      (Worker.landing (w.step ((Chronicle.start r m).run actions).system.runtime action))) :
    LeavesNoTrace (Chronicle.start r m) actions owner
      (((Chronicle.start r m).run actions).step (.act owner action)).system := by
  rw [Chronicle.step_act here]
  refine .of_withdrawn new owners here withdrawn rfl fun w' there => ?_
  rw [System.worker?_setWorker, if_pos rfl] at there
  cases there
  rfl

theorem leavesNoTrace_of_ends {settings : Settings} {r : Runtime} (new : Runtime.new? settings = .ok r)
    {m : Memory} {actions : List (Action α ε)} (owners : actions.countP Action.isAnnounce < lockBit)
    {owner : OwnerId} {w : Worker}
    (here : ((Chronicle.start r m).run actions).system.worker? owner = some w) {a : Action α ε}
    (ends : a.dropsOr owner WorkerAction.ends
      (((Chronicle.start r m).run actions).system.step a).1 = true) :
    LeavesNoTrace (Chronicle.start r m) actions owner (((Chronicle.start r m).run actions).step a).system := by
  have orderly := (Chronicle.orderly_run new m owners).1
  cases a with
  | announce => cases ends
  | register o => cases ends
  | drop o =>
    simp only [Action.dropsOr, Bool.and_eq_true, decide_eq_true_eq] at ends
    obtain ⟨rfl, accepted⟩ := ends
    rcases orderly.drop_cases (α := α) (ε := ε) o with
      ⟨refused, -⟩ | ⟨-, w', scope, there, withdrawn, -, dropped⟩
    · simp [System.step, refused] at accepted
    · rw [Chronicle.system_step, System.step, dropped]
      refine .of_withdrawn new owners there withdrawn rfl fun w₁ there => ?_
      rw [System.worker?_erase, if_pos rfl] at there
      cases there
  | act o action =>
    simp only [Action.dropsOr, Bool.and_eq_true, decide_eq_true_eq] at ends
    obtain ⟨rfl, ended⟩ := ends
    simp only [System.step, System.act_eq here] at ended
    exact .of_act new owners here (Worker.step_ends (orderly.holding o w here) ended)

/-- In a run of any contexts, whatever faults they meet, an attempt that fails leaves no trace.

If an access or a commit of an active attempt fails, the steps of the call before the last have only taken
free slots, and a commit has moved the clock by one; the last step gives up the attempt.  Then, until the
context is dropped or begins another attempt, all accesses repeat the conflict, commits fail, and rollbacks
do nothing.  A rollback, the beginning of another attempt, and the end of the context give up the attempt
at once. -/
theorem failed_attempt_leaves_no_trace {settings : Settings} {r : Runtime}
    (new : Runtime.new? settings = .ok r) (m : Memory) (before call after : List (Action α ε))
    (owners : (before ++ call ++ after).countP Action.isAnnounce < lockBit) (owner : OwnerId) (w : Worker)
    (here : ((Chronicle.start r m).run before).system.worker? owner = some w)
    (active : w.context.phase = .active) :
    let t₀ := Chronicle.start r m
    let t := t₀.run before
    (∀ action response, action.tries = true → Call owner action t call response →
      response.isFailure = true → ∃ rest c, let waited := .act owner action :: rest
        call = waited ++ [.act owner .resume] ∧ Quietly t owner action.commits.toNat waited ∧
        LeavesNoTrace t₀ (before ++ waited) owner (t.run call).system ∧
        (∀ c', response = .replied (.aborted c') → c' = c) ∧
        ((∀ pre a post, after = pre ++ a :: post →
            a.dropsOr owner Seat.begins ((t.run (call ++ pre)).system.step a).1 = false) →
          (t.run (call ++ after)).system.Repeats α ε owner c)) ∧
    ∀ a : Action α ε, a.dropsOr owner WorkerAction.ends (t.system.step a).1 = true →
      LeavesNoTrace t₀ before owner (t.step a).system := by
  intro t₀ t
  rw [List.countP_append, List.countP_append] at owners
  have orderly : ∀ pre post, call ++ after = pre ++ post → (t.run pre).system.Orderly := by
    intro pre post split
    rw [← Chronicle.run_append]
    refine (Chronicle.orderly_run new m ?_).1
    have parts := congrArg (List.countP Action.isAnnounce) split
    rw [List.countP_append, List.countP_append] at parts
    rw [List.countP_append]
    omega
  constructor
  · intro action response tries calls failure
    obtain ⟨rest, w₁, c, split, quietly, there, responds, failed⟩ := calls.failed
      (fun pre post split => orderly pre (post ++ after) (by rw [split, List.append_assoc])) tries here active
      failure
    subst split
    simp only [List.countP_append] at owners
    have ran : (t.run (.act owner action :: rest ++ [.act owner .resume])).system.worker? owner =
        some (w₁.step (α := α) (ε := ε) (t.run (.act owner action :: rest)).system.runtime .resume).2.2 := by
      rw [Chronicle.run_append, Chronicle.run_singleton, Chronicle.step_act there]
      exact System.worker?_setWorker.trans (if_pos rfl)
    refine ⟨rest, c, rfl, quietly, ?_, ?_, ?_⟩
    · rw [← Chronicle.run_append] at there failed
      rw [Chronicle.run_append, Chronicle.run_singleton, ← Chronicle.run_append]
      exact .of_act new (by rw [List.countP_append]; omega) there failed.withdrawn
    · intro c' told
      refine failed.told c' ?_
      rw [← told, responds]
      simp only [System.step, System.act_eq there]
    · intro still
      have kept : ∀ pre post, after = pre ++ post →
          ((t.run (.act owner action :: rest ++ [.act owner .resume])).run pre).system.Orderly := by
        intro pre post split
        rw [← Chronicle.run_append]
        exact orderly _ post (by rw [split, ← List.append_assoc])
      obtain ⟨w', there', aborted⟩ := aborted_run kept ran failed.aborted fun pre a post split => by
        rw [← Chronicle.run_append]
        exact still pre a post split
      rw [Chronicle.run_append]
      exact aborted.repeats there'
  · intro a ends
    exact leavesNoTrace_of_ends new (by omega) here ends

/-- A write finds its slot held by another context, which commits before the writer is rolled back: the
    slot that the writer held is free as before, and its attempt stays aborted. -/
theorem failed_attempt_leaves_no_trace_of_two :
    let before : List (Action Unit Unit) :=
      [.announce, .announce, .register ⟨1⟩, .register ⟨2⟩,
       .act ⟨1⟩ (.call (.start 0 .regular)), .act ⟨2⟩ (.call (.start 0 .elastic)),
       .act ⟨1⟩ (.call (.write ⟨16, 0⟩ (.u64 7))), .act ⟨2⟩ (.call (.write ⟨16, 1⟩ (.u64 8)))]
    let waited : List (Action Unit Unit) :=
      [.act ⟨2⟩ (.call (.write ⟨16, 0⟩ (.u64 9))), .act ⟨1⟩ (.call .commit)]
    let after : List (Action Unit Unit) := [.act ⟨2⟩ (.call .commit)]
    let t := (Chronicle.start smallRuntime pair).run before
    let slot := smallRuntime.table.slotOf ⟨16, 1⟩
    t.system.runtime.table.word slot = .held ⟨2⟩ ∧
      ((t.run waited).system.step (.act ⟨2⟩ .resume : Action Unit Unit)).1 =
        .replied (.aborted .lockedByOther) ∧
      (t.run (waited ++ [.act ⟨2⟩ .resume])).system.runtime.table.word slot = .free 0 ∧
      (t.run (waited ++ [.act ⟨2⟩ .resume] ++ after)).system.Repeats Unit Unit ⟨2⟩ .lockedByOther := by
  intro before waited after t slot
  have there : (t.system.worker? ⟨2⟩).isSome = true := by decide +kernel
  obtain ⟨w, here⟩ := Option.isSome_iff_exists.mp there
  have active : w.context.phase = .active := by
    have phases : ∀ w ∈ t.system.worker? ⟨2⟩, w.context.phase = .active := by decide +kernel
    exact phases w here
  have call : Call ⟨2⟩ (.call (.write ⟨16, 0⟩ (.u64 9))) t (waited ++ [.act ⟨2⟩ .resume]) _ :=
    .resume (.beside (.act ⟨1⟩ (.call .commit)) .begin (by decide +kernel) (by decide)) (by decide +kernel)
  have responds : ((t.run waited).system.step (.act ⟨2⟩ .resume : Action Unit Unit)).1 =
      .replied (.aborted .lockedByOther) := by decide +kernel
  have traceless := failed_attempt_leaves_no_trace smallRuntime_new pair before
    (waited ++ [.act ⟨2⟩ .resume]) after (by decide) ⟨2⟩ w here active
  obtain ⟨rest, c, -, -, -, told, later⟩ := traceless.1 _ _ rfl call (responds ▸ rfl)
  obtain rfl : .lockedByOther = c := told _ responds
  refine ⟨by decide +kernel, responds, by decide +kernel, later fun pre a post split => ?_⟩
  replace split : [.act ⟨2⟩ (.call .commit)] = pre ++ a :: post := split
  cases pre with
  | nil =>
    cases split
    decide +kernel
  | cons b pre => cases pre <;> cases split

end TransactionalMemory
