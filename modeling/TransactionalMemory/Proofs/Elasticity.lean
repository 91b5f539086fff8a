import TransactionalMemory.Proofs.Runs

/-! # What an elastic attempt sees

An elastic attempt with a window of `k` is one snapshot for no more than `k + 1` reads in a row.  Before
it has written, each read and the `k` before it are from one committed memory, and these memories follow
one another in the order of the commits (`elastic_reads_consistent`).  From its first write on it keeps
the `k` latest reads and all that come, and its commit stores the writes into a memory that still holds
what they read (`elastic_commit_atomic`).
-/

namespace TransactionalMemory

variable {α ε : Type}

/-! ## Reads before the first write -/

theorem locations_of_watches {m₀ : Memory} {d : Seat} {entries : List ReadEntry} {reads : List Reading}
    (h : List.Forall₂ (d.Watches m₀) entries reads) :
    entries.map (·.location) = reads.map (·.location) := by
  induction h with
  | nil => rfl
  | cons first _ ih => rw [List.map_cons, List.map_cons, first.1, ih]

/-- In a run of any contexts, an elastic attempt that has not written and did not call for an extension
    has read in windows: the reads are given values of the clock, which never decrease, and each read
    and the `k` before it are what memory held then. -/
theorem elastic_reads_consistent {settings : Settings} {r : Runtime}
    (new : Runtime.new? settings = .ok r) (m : Memory) (actions : List (Action α ε))
    (limits : WithinLimits (Chronicle.start r m).system actions) (owner : OwnerId) (w : Worker)
    (here : ((Chronicle.start r m).run actions).system.worker? owner = some w)
    (active : w.context.phase = .active) (elastic : w.context.mode = .elastic)
    (nothing : w.context.writes.isEmpty = true)
    (unextended : (((Chronicle.start r m).run actions).attempts owner).extended = false) :
    let t := (Chronicle.start r m).run actions
    let reads := fromMemory (t.attempts owner).accesses
    (t.attempts owner).accesses = reads.map .read ∧
    w.context.window.entries.map (·.location) = (latest settings.window reads).map (·.location) ∧
    ∃ time : Nat → Nat, (∀ i j, i ≤ j → time i ≤ time j) ∧
      ∀ i q, reads[i]? = some q →
        w.context.lower ≤ time i ∧ time i ≤ q.time ∧ q.time ≤ t.system.runtime.clock.now ∧
        ∀ j p, reads[j]? = some p → j ≤ i → i ≤ j + settings.window →
          p.HoldsIn (contentAt m.words t.commits (time i)) := by
  intro t reads
  obtain ⟨coherent, -, same⟩ := Chronicle.coherent_run_any new limits
  have seated := coherent.seats owner w here
  have capacity : w.context.window.capacity = settings.window := by rw [seated.window, same]
  have watching := seated.sound.watching active elastic nothing
  refine ⟨watching.story, ?_, ?_⟩
  · rw [← capacity]
    exact locations_of_watches watching.watched
  · obtain ⟨time, chained⟩ := watching.chained unextended
    refine ⟨time, chained.mono, ?_⟩
    intro i q read
    obtain ⟨lower, past⟩ := chained.within i q read
    have dated := seated.sound.dated.time active q (List.mem_of_getElem? read)
    refine ⟨lower, past, dated.2.1, ?_⟩
    intro j p earlier le near
    rw [← capacity] at near
    exact chained.holds j p earlier i le near

/-- Another context commits between the first two reads of an elastic attempt. -/
theorem elastic_reads_consistent_of_two :
    let actions : List (Action Unit Unit) :=
      [.announce, .announce, .register ⟨1⟩, .register ⟨2⟩,
       .act ⟨1⟩ (.call (.start 0 .elastic)), .act ⟨2⟩ (.call (.start 0 .regular)),
       .act ⟨1⟩ (.call (.read ⟨16, 0⟩ .u64)), .act ⟨2⟩ (.call (.write ⟨16, 1⟩ (.u64 7))),
       .act ⟨2⟩ (.call .commit), .act ⟨1⟩ (.call (.read ⟨16, 1⟩ .u64)),
       .act ⟨1⟩ (.call (.read ⟨16, 0⟩ .u64))]
    let t := (Chronicle.start smallRuntime pair).run actions
    let reads := fromMemory (t.attempts ⟨1⟩).accesses
    reads.length = 3 ∧ ∃ time : Nat → Nat, ∀ i q, reads[i]? = some q → ∀ j p, reads[j]? = some p →
      j ≤ i → i ≤ j + 2 → p.HoldsIn (contentAt pair.words t.commits (time i)) := by
  intro actions t reads
  have limits : WithinLimits (Chronicle.start smallRuntime pair).system actions :=
    ⟨by decide +kernel, by decide +kernel, by decide⟩
  have found : ∃ w ∈ t.system.worker? ⟨1⟩, w.context.phase = .active ∧ w.context.mode = .elastic ∧
      w.context.writes.isEmpty = true := by decide +kernel
  obtain ⟨w, here, active, elastic, nothing⟩ := found
  obtain ⟨-, -, time, -, consistent⟩ := elastic_reads_consistent smallRuntime_new pair actions limits ⟨1⟩
    w here active elastic nothing (by decide +kernel)
  exact ⟨by decide +kernel, time, fun i q read => (consistent i q read).2.2.2⟩

/-! ## Aborts that are cut off

An elastic attempt whose first write finds the window overtaken is to be aborted, with the write
already in its log.  Only a full counter can cut this abort off and leave the attempt standing, and what
it commits then is not covered.  The counters are a limit of the machine like the clock
(`CountsAborts`).
-/

/-- At every moment of a run the counters of the owner's context have room for an abort. -/
def CountsAborts (s : System) (actions : List (Action α ε)) (owner : OwnerId) : Prop :=
  ∀ n ≤ actions.length, ∀ w ∈ (s.run (actions.take n)).2.worker? owner, ∀ c ∈ Conflict.all,
    (w.context.tally.countAbort c).isOk

theorem CountsAborts.of_append {s : System} {actions rest : List (Action α ε)} {owner : OwnerId}
    (counts : CountsAborts s (actions ++ rest) owner) : CountsAborts s actions owner := by
  intro n le w here
  have same : (actions ++ rest).take n = actions.take n := List.take_append_of_le_length le
  have later := counts n (by rw [List.length_append]; exact Nat.le_add_right_of_le le) w
  rw [same] at later
  exact later here

theorem Tally.countAbort_eq_error {tally : Tally} {c : Conflict} {f : Fault}
    (full : tally.countAbort c = .error f) : f = .overflow := by
  unfold countAbort checked at full
  split at full
  · cases full
  · cases full
    rfl

theorem Sound.overflow_of_faulted {allowed : Mode → Prop} {m₀ : Memory} {d : Seat}
    (h : Sound allowed m₀ d) {c : Conflict} {site : AbortSite}
    (waiting : d.pending = some (.abort c site)) {f : Fault}
    (faulted : (d.scope.finishAbort c site).1 = .faulted f) :
    d.context.tally.countAbort c = .error .overflow := by
  have noExtension : ¬ Pending.isExtension d.pending := by rw [waiting]; exact id
  unfold Scope.finishAbort at faulted
  cases counted : d.scope.context.tally.countAbort c with
  | error g =>
    rw [← Tally.countAbort_eq_error counted]
    exact counted
  | ok tally =>
    obtain ⟨s, rolled, -⟩ := (h.moves (h.counted d.runtime.published tally (some c))).rollback_moves
      noExtension
    replace rolled : Scope.rollback { d.scope with
      context := { d.scope.context with tally, lastConflict := some c } } = (.ok (), s) := rolled
    simp only [counted, rolled] at faulted
    cases site <;> cases faulted

/-- While an abort stands at its event, the only action that can meet a fault is to go on with it. -/
theorem Worker.finishAbort_of_faulted {w : Worker} {r : Runtime} {c : Conflict} {site : AbortSite}
    (waiting : w.pending = some (.abort c site)) {action : WorkerAction α ε} {f : Fault}
    (faulted : (w.step r action).1 = .faulted f) :
    ((w.scope r).finishAbort c site).1 = .faulted f := by
  have busy : w.isBusy = true := by simp [isBusy, waiting]
  cases action with
  | resume =>
    rw [step_resume_of_waiting waiting] at faulted
    simp only [resume, Scope.resume] at faulted
    generalize (w.scope r).finishAbort c site = out at faulted ⊢
    obtain ⟨p, s⟩ := out
    cases p with
    | faulted g =>
      unfold advance at faulted
      dsimp only at faulted
      split at faulted <;> exact congrArg Progress.faulted (by cases faulted; rfl)
    | commitLost =>
      simp only [advance, afterConflict] at faulted
      split at faulted
      · cases faulted
      · split at faulted <;> cases faulted
    | answered reply => cases faulted
    | standing e rest => cases faulted
  | call request => simp [step, busy, refuse] at faulted
  | enter block mode => simp [step, busy, refuse] at faulted
  | leave result => simp [step, inBody, busy, refuse] at faulted
  | decide control => simp [step, waiting, refuse] at faulted
  | unwind => simp [step, atClient, waiting, refuse] at faulted

/-- A step that cuts an abort off has met a full counter of the context. -/
theorem Chronicle.Coherent.overflow_of_broken {allowed : Mode → Prop} {m₀ : Memory} {t : Chronicle}
    (h : t.Coherent allowed m₀) {a : Action α ε} {owner : OwnerId}
    (whole : (t.attempts owner).broken = false) (broken : ((t.step a).attempts owner).broken = true) :
    ∃ w c site, t.system.worker? owner = some w ∧ w.pending = some (.abort c site) ∧
      w.context.tally.countAbort c = .error .overflow := by
  have unchanged : (t.step a).attempts owner ≠ t.attempts owner := fun same => by
    rw [same, whole] at broken
    cases broken
  cases a with
  | act o action =>
    cases here : t.system.worker? o with
    | none => exact absurd (by simp only [step, here]) unchanged
    | some w =>
      rw [step_act here] at broken unchanged
      dsimp only at broken unchanged
      split at broken
      · next same =>
        subst same
        have breaks : (t.seat owner w).breaksAbort (w.step t.system.runtime action).1 = true := by
          simp only [Seat.next, Seat.attemptAfter] at broken
          split at broken
          · cases broken
          · simpa [seat, whole] using broken
        unfold Seat.breaksAbort at breaks
        split at breaks
        · next f faulted =>
          split at breaks
          · next c site waiting =>
            exact ⟨w, c, site, here, waiting, (h.seats owner w here).sound.overflow_of_faulted waiting
              (Worker.finishAbort_of_faulted waiting faulted)⟩
          · cases breaks
        · cases breaks
      · next other => exact absurd (if_neg other) unchanged
  | _ => exact absurd rfl unchanged

theorem Chronicle.whole_of_countsAborts {settings : Settings} {r : Runtime} {m : Memory}
    (new : Runtime.new? settings = .ok r) {actions : List (Action α ε)} {owner : OwnerId}
    (limits : WithinLimits (start r m).system actions)
    (counts : CountsAborts (start r m).system actions owner) :
    (((start r m).run actions).attempts owner).broken = false := by
  induction actions using List.reverseRecOn with
  | nil => rfl
  | append_singleton actions a ih =>
    have whole := ih limits.of_append counts.of_append
    have coherent := (coherent_run_any new limits.of_append).1
    rw [run_snoc]
    refine Bool.eq_false_iff.mpr ?_
    intro broken
    obtain ⟨w, c, site, here, -, full⟩ := coherent.overflow_of_broken whole broken
    have room := counts actions.length (by simp) w (by rwa [List.take_left, ← system_run]) c c.mem_all
    rw [full] at room
    cases room

/-! ## Commits with writes -/

namespace Chronicle

variable {t : Chronicle} {owner : OwnerId} {action : WorkerAction α ε} {w w' : Worker}

/-- An attempt with writes that commits in a step is put on record by the step. -/
theorem commits_step (here : t.system.worker? owner = some w) (active : w.context.phase = .active)
    (wrote : w.context.writes.isEmpty = false)
    (there : (t.step (.act owner action)).system.worker? owner = some w')
    (committed : w'.context.phase = .committed) :
    (t.step (.act owner action)).commits = t.commits ++
      [⟨(t.step (.act owner action)).system.runtime.clock.now, w.context, t.attempts owner⟩] := by
  rw [step_act here] at there ⊢
  generalize w.step t.system.runtime action = out at there ⊢
  rw [System.worker?_setWorker, if_pos rfl] at there
  cases there
  simp [Seat.next, seat, active, committed, wrote, System.setWorker]

end Chronicle

/-- In a run of any contexts, an elastic attempt with writes commits at one point of the order of
    commits: just before, memory holds what its guarded reads have read, and the step stores its
    writes. -/
theorem elastic_commit_atomic {settings : Settings} {r : Runtime}
    (new : Runtime.new? settings = .ok r) (m : Memory) (actions : List (Action α ε)) (owner : OwnerId)
    (action : WorkerAction α ε)
    (limits : WithinLimits (Chronicle.start r m).system (actions ++ [.act owner action])) (w w' : Worker)
    (here : ((Chronicle.start r m).run actions).system.worker? owner = some w)
    (active : w.context.phase = .active) (elastic : w.context.mode = .elastic)
    (wrote : w.context.writes.isEmpty = false)
    (counts : CountsAborts (Chronicle.start r m).system actions owner)
    (there : (((Chronicle.start r m).run actions).step (.act owner action)).system.worker? owner =
      some w')
    (done : w'.context.phase = .committed) :
    let t := (Chronicle.start r m).run actions
    let t' := t.step (.act owner action)
    let x := t.attempts owner
    t'.commits = t.commits ++ [⟨t'.system.runtime.clock.now, w.context, x⟩] ∧
    (∀ y ∈ t.commits, y.stamp < t'.system.runtime.clock.now) ∧
    (∀ q ∈ guarded settings.window x.accesses, q.HoldsIn t.system.runtime.memory.words) ∧
    t'.system.runtime.memory.words = execute x.accesses t.system.runtime.memory.words := by
  intro t t' x
  -- The annals after the step speak of the memory before it, which the ledger knows.
  obtain ⟨before, -, same⟩ := Chronicle.coherent_run_any new limits.of_append
  have after : t'.Coherent (fun _ => True) m := by
    have run := (Chronicle.coherent_run_any new limits).1
    rwa [Chronicle.run_append, Chronicle.run_singleton] at run
  have unbroken : x.broken = false := Chronicle.whole_of_countsAborts new limits.of_append counts
  have capacity : w.context.window.capacity = settings.window := by
    rw [(before.seats owner w here).window, same]
  have recorded := Chronicle.commits_step here active wrote there done
  replace recorded : t'.commits = t.commits ++ [⟨t'.system.runtime.clock.now, w.context, x⟩] := recorded
  have last : (⟨t'.system.runtime.clock.now, w.context, x⟩ : Commit) ∈ t'.commits := by
    rw [recorded]
    exact List.mem_append_right _ (List.mem_singleton_self _)
  refine ⟨recorded, ?_, ?_, ?_⟩
  · intro y member
    have ordered := after.ledger.ordered
    rw [recorded] at ordered
    exact (List.pairwise_append.mp ordered).2.2 y member _ (List.mem_singleton_self _)
  · intro q member
    rw [before.ledger.words]
    rw [← capacity] at member
    exact after.annals.guards t.commits _ [] recorded elastic unbroken q member
  · have stored := after.annals.executed _ last fun _ => unbroken
    rw [after.ledger.words, recorded, committed_append, committed_singleton, ← before.ledger.words, stored]

/-- An elastic attempt commits, which has met a commit of another context between its reads. -/
theorem elastic_commit_atomic_of_two :
    let actions : List (Action Unit Unit) :=
      [.announce, .announce, .register ⟨1⟩, .register ⟨2⟩,
       .act ⟨1⟩ (.call (.start 0 .elastic)), .act ⟨2⟩ (.call (.start 0 .regular)),
       .act ⟨1⟩ (.call (.read ⟨16, 0⟩ .u64)), .act ⟨2⟩ (.call (.write ⟨16, 1⟩ (.u64 7))),
       .act ⟨2⟩ (.call .commit), .act ⟨1⟩ (.call (.read ⟨16, 1⟩ .u64)),
       .act ⟨1⟩ (.call (.write ⟨16, 0⟩ (.u64 8)))]
    let t := (Chronicle.start smallRuntime pair).run actions
    (guarded 2 (t.attempts ⟨1⟩).accesses).length = 2 ∧
      ∀ q ∈ guarded 2 (t.attempts ⟨1⟩).accesses, q.HoldsIn t.system.runtime.memory.words := by
  intro actions t
  have limits : WithinLimits (Chronicle.start smallRuntime pair).system
      (actions ++ [.act ⟨1⟩ (.call .commit)]) :=
    ⟨by decide +kernel, by decide +kernel, by decide⟩
  have found : ∃ w ∈ t.system.worker? ⟨1⟩, w.context.phase = .active ∧ w.context.mode = .elastic ∧
      w.context.writes.isEmpty = false := by decide +kernel
  have after : ∃ w ∈ (t.step (.act ⟨1⟩ (.call .commit) : Action Unit Unit)).system.worker? ⟨1⟩,
      w.context.phase = .committed := by decide +kernel
  obtain ⟨w, here, active, elastic, wrote⟩ := found
  obtain ⟨w', there, done⟩ := after
  have counts : CountsAborts (Chronicle.start smallRuntime pair).system actions ⟨1⟩ := by
    unfold CountsAborts
    decide +kernel
  have atomic := elastic_commit_atomic smallRuntime_new pair actions ⟨1⟩ (.call .commit) limits w w' here
    active elastic wrote counts there done
  exact ⟨by decide +kernel, atomic.2.2.1⟩

end TransactionalMemory
