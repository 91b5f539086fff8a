import TransactionalMemory.Proofs.Deeds

/-! # What a block that has ended well has stored

The body of an atomic block is given the context itself and may run further blocks on it.  A nested block
begins an attempt of its own on the context, which gives up what the outer body has written so far; and
once it has committed, the outer block commits nothing any more and yet ends well
(`nested_block_loses_write`).

What a block that ends well has stored is what was written since an attempt last began on its context, be
it its own attempt or one of a nested block (`ended_block_stores_latest_writes`).
-/

namespace TransactionalMemory

variable {α ε : Type}

/-! ## Writes in a log -/

/-- The log has the value for the location. -/
def RedoLog.Logs (log : RedoLog) (l : Location) (v : Value) : Prop :=
  ∃ e ∈ log.entries, e.location = l ∧ e.value = v

namespace RedoLog

variable {log log' : RedoLog} {slotOf : Location → Nat} {l k : Location} {v u : Value}

theorem Appended.logs_iff {stamp : Option Nat} (h : Appended log log' slotOf l v stamp)
    (wf : log.WellFormed slotOf) : log'.Logs k u ↔ if k = l then v = u else log.Logs k u := by
  rw [Logs, ← value?_eq_some_iff h.wellFormed, h.value k]
  split
  · rw [Option.some_inj]
  · exact value?_eq_some_iff wf

theorem WellFormed.owns_of_logs (wf : log.WellFormed slotOf) (logged : log.Logs l v) :
    log.owns (slotOf l) = true := by
  obtain ⟨e, member, rfl, -⟩ := logged
  exact wf.owns_iff_exists.mpr ⟨e, member, rfl⟩

theorem WellFormed.overlay_of_logs (wf : log.WellFormed slotOf) (logged : log.Logs l v) (m : Words) :
    overlay log.entries m l = v.encode := by
  rw [overlay_apply wf, (value?_eq_some_iff wf).mpr logged]

end RedoLog

/-- What makes an earlier write to a location void: another one, or the beginning of another attempt. -/
def Note.supersedes (l : Location) : Note → Bool
  | nothing => false
  | began => true
  | wrote k _ => k = l

namespace Worker.Deed

variable {w : Worker} {r : Runtime} {action : WorkerAction α ε} {out : Response α ε × Runtime × Worker}
  {l : Location} {v : Value}

/-- A write that was answered is in the log. -/
theorem logs_of_wrote (deed : Deed w r action out) (h : (w.scope r).Holding)
    (wrote : action.note out.1 = .wrote l v) :
    out.2.2.context.phase = .active ∧ out.2.2.context.writes.Logs l v := by
  have first : ∀ {k : Location} {u : Value} {stamp : Option Nat}, Note.wrote k u = .wrote l v →
      (w.context.writes.append (r.table.slotOf k) k u stamp = .ok out.2.2.context.writes) →
      out.2.2.context.writes.Logs l v := by
    rintro k u stamp ⟨⟩ logged
    exact ((h.wellFormed.append logged).logs_iff h.wellFormed).mpr (by rw [if_pos rfl])
  cases deed with
  | log k u logged note =>
    exact ⟨logged.phase.trans logged.active, first (note.symm.trans wrote) logged.logged⟩
  | take k u stamp taken note =>
    refine ⟨taken.phase.trans taken.active, ?_⟩
    rcases note with note | ⟨note, -⟩
    · exact first (note.symm.trans wrote) taken.logged
    · cases note.symm.trans wrote
  | keep _ note | giveUp _ _ _ note | begin _ _ note | commit _ note | stop _ _ _ note =>
    cases note.symm.trans wrote

/-- A logged write stays in the log, or it is stored, or the attempt is aborted. -/
theorem logs_cases (deed : Deed w r action out) (h : (w.scope r).Holding)
    (latest : (action.note out.1).supersedes l = false) (active : w.context.phase = .active)
    (logged : w.context.writes.Logs l v) :
    out.2.2.context.phase = .active ∧ out.2.2.context.writes.Logs l v ∨
    out.2.2.context.phase = .committed ∧ out.2.1.memory.words l = v.encode ∨
    out.2.2.context.phase = .aborted := by
  have stays : ∀ {k : Location} {u : Value} {stamp : Option Nat}, k ≠ l →
      (w.context.writes.append (r.table.slotOf k) k u stamp = .ok out.2.2.context.writes) →
      out.2.2.context.writes.Logs l v := by
    intro k u stamp other appended
    refine ((h.wellFormed.append appended).logs_iff h.wellFormed).mpr ?_
    rw [if_neg (Ne.symm other)]
    exact logged
  cases deed with
  | keep same => exact Or.inl ⟨same.phase.trans active, same.writes ▸ logged⟩
  | log k u written note =>
    have other : k ≠ l := by simpa [note, Note.supersedes] using latest
    exact Or.inl ⟨written.phase.trans active, stays other written.logged⟩
  | take k u stamp taken note =>
    -- The slot of a location that is logged is held already.
    have other : k ≠ l := by
      rintro rfl
      obtain ⟨stamp, own⟩ := Option.isSome_iff_exists.mp (h.wellFormed.owns_of_logs logged)
      cases taken.free.symm.trans (h.held _ stamp own)
    exact Or.inl ⟨taken.phase.trans active, stays other taken.logged⟩
  | giveUp _ _ aborted => exact Or.inr (Or.inr aborted)
  | begin _ _ note =>
    rw [note] at latest
    cases latest
  | commit committed =>
    exact Or.inr (Or.inl ⟨committed.phase,
      (congrFun committed.words l).trans (h.wellFormed.overlay_of_logs logged _)⟩)
  | stop f stopped => exact Or.inl ⟨stopped.phase.trans active, stopped.writes ▸ logged⟩

/-- The context of an attempt that has ended stores nothing until another attempt begins. -/
theorem same_of_inactive (deed : Deed w r action out) (latest : (action.note out.1).supersedes l = false)
    (inactive : w.context.phase ≠ .active) :
    out.2.2.context.phase = w.context.phase ∧ out.2.1.memory = r.memory := by
  cases deed with
  | keep same => exact ⟨same.phase, same.memory⟩
  | log k u logged => exact absurd logged.active inactive
  | take k u stamp taken => exact absurd taken.active inactive
  | giveUp _ active => exact absurd active inactive
  | begin _ _ note =>
    rw [note] at latest
    cases latest
  | commit committed => exact absurd committed.active inactive
  | stop f stopped => exact absurd stopped.active inactive

end Worker.Deed

/-! ## The fate of a write -/

/-- One of the actions is a step of the owner that has stored the value, and the owner's steps after it
    have stored nothing. -/
def StoredOnce (t : Chronicle) (owner : OwnerId) (l : Location) (v : Value) (actions : List (Action α ε)) :
    Prop :=
  ∃ before commit after, actions = before ++ commit :: after ∧ commit.owner? = some owner ∧
    (t.run (before ++ [commit])).system.runtime.memory.words l = v.encode ∧
    (t.run (before ++ [commit])).StoresNothing owner after

/-- What has become of a write of an owner after some actions: it is in the log of its attempt, or it is
    stored, or its attempt is aborted or gone. -/
inductive Fate (t : Chronicle) (owner : OwnerId) (l : Location) (v : Value) (sofar : List (Action α ε)) :
    Prop where
  | logged (w : Worker) (here : (t.run sofar).system.worker? owner = some w)
      (active : w.context.phase = .active) (logged : w.context.writes.Logs l v)
  | stored (w : Worker) (here : (t.run sofar).system.worker? owner = some w)
      (committed : w.context.phase = .committed) (once : StoredOnce t owner l v sofar)
  | lost (idle : ∀ w, (t.run sofar).system.worker? owner = some w →
      w.context.phase ≠ .active ∧ w.context.phase ≠ .committed)

section

variable {t : Chronicle} {owner : OwnerId} {l : Location} {v : Value} {sofar : List (Action α ε)}
  {a : Action α ε}

theorem StoredOnce.snoc (once : StoredOnce t owner l v sofar)
    (still : a.owner? = some owner →
      (t.run (sofar ++ [a])).system.runtime.memory = (t.run sofar).system.runtime.memory) :
    StoredOnce t owner l v (sofar ++ [a]) := by
  obtain ⟨before, commit, after, rfl, own, word, others⟩ := once
  refine ⟨before, commit, after ++ [a], by rw [List.append_assoc, List.cons_append], own, word,
    others.snoc fun ownA => ?_⟩
  simpa only [← Chronicle.run_append, List.append_assoc, List.cons_append, List.nil_append] using still ownA

namespace Fate

/-- A step that leaves the worker alone, and memory too if it is the owner's. -/
theorem beside (fate : Fate t owner l v sofar)
    (same : (t.run (sofar ++ [a])).system.worker? owner = (t.run sofar).system.worker? owner)
    (still : a.owner? = some owner →
      (t.run (sofar ++ [a])).system.runtime.memory = (t.run sofar).system.runtime.memory) :
    Fate t owner l v (sofar ++ [a]) := by
  cases fate with
  | logged w here active logged => exact .logged w (same.trans here) active logged
  | stored w here committed once => exact .stored w (same.trans here) committed (once.snoc still)
  | lost idle => exact .lost (by rw [same]; exact idle)

theorem act (fate : Fate t owner l v sofar) (orderly : (t.run sofar).system.Orderly) {w : Worker}
    (here : (t.run sofar).system.worker? owner = some w) {action : WorkerAction α ε}
    (latest : (action.note (w.step (t.run sofar).system.runtime action).1).supersedes l = false) :
    Fate t owner l v (sofar ++ [.act owner action]) := by
  have holding := orderly.holding owner w here
  have deed := Worker.deed_step holding action
  have there := Chronicle.worker?_step_act here action
  have runtime := Chronicle.runtime_step_act here action
  rw [← Chronicle.run_snoc] at there runtime
  cases fate with
  | logged w' here' active logged =>
    cases here.symm.trans here'
    rcases deed.logs_cases holding latest active logged with ⟨active, logged⟩ | ⟨committed, word⟩ | aborted
    · exact .logged _ there active logged
    · exact .stored _ there committed ⟨sofar, _, [], rfl, rfl, by rw [runtime]; exact word, .nil⟩
    · refine .lost fun w' there' => ?_
      cases there.symm.trans there'
      rw [aborted]
      exact ⟨nofun, nofun⟩
  | stored w' here' committed once =>
    cases here.symm.trans here'
    obtain ⟨phase, memory⟩ := deed.same_of_inactive latest (by rw [committed]; exact Phase.noConfusion)
    exact .stored _ there (phase.trans committed) (once.snoc fun _ => by rw [runtime]; exact memory)
  | lost idle =>
    obtain ⟨inactive, uncommitted⟩ := idle w here
    obtain ⟨phase, -⟩ := deed.same_of_inactive latest inactive
    refine .lost fun w' there' => ?_
    cases there.symm.trans there'
    rw [phase]
    exact ⟨inactive, uncommitted⟩

theorem snoc (fate : Fate t owner l v sofar) (orderly : (t.run sofar).system.Orderly)
    (latest : a.dropsOr owner (fun action response => (action.note response).supersedes l)
      ((t.run sofar).system.step a).1 = false) : Fate t owner l v (sofar ++ [a]) := by
  have stepped : (t.run (sofar ++ [a])).system = ((t.run sofar).system.step a).2 := by
    rw [Chronicle.run_snoc, Chronicle.system_step]
  by_cases own : a.owner? = some owner
  · cases here : (t.run sofar).system.worker? owner with
    | some w =>
      rcases orderly.own_cases here own latest with same | ⟨action, rfl, still⟩
      · exact fate.beside (by rw [stepped, same]) fun _ => by rw [stepped, same]
      · exact fate.act orderly here still
    | none =>
      -- Without a context there was no write to lose, and a new context is not active.
      refine .lost fun w there => ?_
      rw [stepped] at there
      rcases orderly.worker_cases there with here' | ⟨_, _, -, here', -⟩ | ⟨-, window, rfl⟩
      · cases here.symm.trans here'
      · cases here.symm.trans here'
      · exact ⟨nofun, nofun⟩
  · exact fate.beside (by rw [stepped]; exact System.worker?_step_of_ne own) fun same => absurd same own

theorem run {actions : List (Action α ε)} (first : Fate (α := α) (ε := ε) t owner l v [])
    (orderly : t.OrderlyAlong actions)
    (latest : ∀ pre a post, actions = pre ++ a :: post →
      a.dropsOr owner (fun action response => (action.note response).supersedes l)
        ((t.run pre).system.step a).1 = false) : Fate t owner l v actions := by
  induction actions using List.reverseRecOn with
  | nil => exact first
  | append_singleton actions a ih =>
    refine (ih orderly.init fun pre b post split => ?_).snoc orderly.init.last (latest actions a [] rfl)
    exact latest pre b (post ++ [a]) (by rw [split, List.append_assoc, List.cons_append])

/-- A write that is answered is in the log. -/
theorem begin (orderly : t.system.Orderly)
    (done : (t.system.step (.act owner (.call (.write l v)) : Action α ε)).1 = .replied .done) :
    Fate (α := α) (ε := ε) (t.step (.act owner (.call (.write l v)) : Action α ε)) owner l v [] := by
  cases here : t.system.worker? owner with
  | none =>
    simp only [System.step, System.act, here] at done
    cases done
  | some w =>
    have holding := orderly.holding owner w here
    rw [Chronicle.response_step_act here] at done
    obtain ⟨active, logged⟩ := (Worker.deed_step holding (.call (.write l v))).logs_of_wrote holding
      (l := l) (v := v) (by rw [done]; rfl)
    exact .logged _ (Chronicle.worker?_step_act here (.call (.write l v))) active logged

end Fate

end

/-! ## Blocks that end well -/

/-- A block ends well with a context that has committed. -/
theorem Worker.committed_of_ended {w : Worker} {r : Runtime} (h : (w.scope r).Holding)
    {body : BodyResult α ε} {result : BlockResult α ε} (ended : (w.step r (.leave body)).1 = .ended result) :
    (w.step r (.leave body)).2.2.context.phase = .committed := by
  have left : ∀ {result' : BlockResult α ε}, (w.leaveBy result' r).1 = .ended result →
      (w.leaveBy result' r).2.2.context.phase = .committed := by
    intro result' ended
    rcases leaveBy_cases h result' with ⟨f, faulted⟩ | ⟨s, committed, -, closed⟩ | ⟨e, s, -, -, stands⟩ |
      ⟨-, conflict⟩
    · rw [faulted] at ended
      cases ended
    · rw [closed]
      exact committed
    · rw [stands] at ended
      cases ended
    · rw [conflict] at ended
      exact absurd ended (afterConflict_ne rfl)
  have dispatch := dispatch_step w r (.leave body)
  generalize w.step r (.leave body) = out at dispatch ended ⊢
  cases dispatch with
  | refuse => cases ended
  | leave =>
    cases body with
    | value a => exact left ended
    | failure e => exact left ended
    | conflict c =>
      rcases leaveOnConflict_eq (α := α) (ε := ε) h c with ⟨f, faulted⟩ | ⟨s, -, conflict⟩
      · rw [leave, faulted] at ended
        cases ended
      · rw [leave, conflict] at ended
        exact absurd ended (afterConflict_ne rfl)

/-- In a run of any contexts, let a write of an owner be answered, and let a block of the owner end well later
    on, with no other attempt of the owner begun and no other write of it to the location in between.  Then
    one of the owner's steps in between, the end of the block included, has stored the value, and the owner
    has stored nothing since.

So what a block loses is what was written before the attempt that began last, which may be that of a nested
block; and what it does not lose is replaced by a commit of another owner at most. -/
theorem ended_block_stores_latest_writes {settings : Settings} {r : Runtime}
    (new : Runtime.new? settings = .ok r) (m : Memory) (before between : List (Action α ε)) (owner : OwnerId)
    (l : Location) (v : Value) (body : BodyResult α ε) (result : BlockResult α ε)
    (owners : (before ++ .act owner (.call (.write l v)) :: between).countP Action.isAnnounce < lockBit) :
    let t := (Chronicle.start r m).run before
    let write : Action α ε := .act owner (.call (.write l v))
    let leave : Action α ε := .act owner (.leave body)
    (t.system.step write).1 = .replied .done →
    (∀ pre a post, between = pre ++ a :: post →
      a.dropsOr owner (fun action response => (action.note response).supersedes l)
        (((t.step write).run pre).system.step a).1 = false) →
    (((t.step write).run between).system.step leave).1 = .ended result →
    StoredOnce (t.step write) owner l v (between ++ [leave]) := by
  intro t write leave done latest ended
  have split : before ++ write :: between = before ++ [write] ++ between := by
    rw [List.append_assoc, List.singleton_append]
  have ran : t.step write = (Chronicle.start r m).run (before ++ [write]) := by
    rw [Chronicle.run_snoc]
  rw [split] at owners
  have orderly : (t.step write).OrderlyAlong between := ran ▸ Chronicle.orderlyAlong_run new m owners
  have first : t.system.Orderly := Chronicle.orderly_of_append new m (by rwa [List.append_assoc] at owners)
  have fate := (Fate.begin first done).run orderly latest
  have last : ((t.step write).run between).system.Orderly := orderly.last
  replace fate : Fate _ owner l v (between ++ [leave]) := fate.snoc last (by
    rw [ended]
    exact Bool.and_false _)
  cases here : ((t.step write).run between).system.worker? owner with
  | none =>
    simp only [System.step, leave, System.act, here] at ended
    cases ended
  | some w =>
    rw [Chronicle.response_step_act here] at ended
    have committed := Worker.committed_of_ended (last.holding owner w here) ended
    have there := Chronicle.worker?_step_act here (.leave body)
    rw [← Chronicle.run_snoc] at there
    cases fate with
    | logged w' here' active =>
      cases there.symm.trans here'
      exact absurd committed (Phase.not_committed active)
    | stored w' here' committed once => exact once
    | lost idle => exact absurd committed (idle _ there).2

/-- A write of a nested block is stored when that block ends, and replaced by a commit of another context
    before the outer block ends. -/
theorem ended_block_stores_latest_writes_of_two :
    let before : List (Action Unit Unit) :=
      [.announce, .announce, .register ⟨1⟩, .register ⟨2⟩, .act ⟨2⟩ (.call (.start 0 .elastic)),
       .act ⟨1⟩ (.enter 1 .regular), .act ⟨1⟩ (.call (.write ⟨16, 0⟩ (.u64 7))),
       .act ⟨1⟩ (.enter 2 .regular)]
    let write : Action Unit Unit := .act ⟨1⟩ (.call (.write ⟨16, 1⟩ (.u64 8)))
    let between : List (Action Unit Unit) :=
      [.act ⟨1⟩ (.leave (.value ())), .act ⟨2⟩ (.call (.write ⟨16, 1⟩ (.u64 9))),
       .act ⟨2⟩ (.call .commit)]
    let leave : Action Unit Unit := .act ⟨1⟩ (.leave (.value ()))
    let t := (Chronicle.start smallRuntime pair).run before
    (t.system.step write).1 = .replied .done ∧
      (((t.step write).run between).system.step leave).1 = .ended (.validated ()) ∧
      (((t.step write).run between).step leave).system.runtime.memory.words ⟨16, 1⟩ = 9 ∧
      StoredOnce (t.step write) ⟨1⟩ ⟨16, 1⟩ (.u64 8) (between ++ [leave]) := by
  intro before write between leave t
  have done : (t.system.step write).1 = .replied .done := by decide +kernel
  have ended : (((t.step write).run between).system.step leave).1 = .ended (.validated ()) := by
    decide +kernel
  refine ⟨done, ended, by decide +kernel, ended_block_stores_latest_writes smallRuntime_new pair before between
    ⟨1⟩ ⟨16, 1⟩ (.u64 8) (.value ()) (.validated ()) (by decide) done (fun pre a post split => ?_) ended⟩
  change [_, _, _] = pre ++ a :: post at split
  rcases pre with _ | ⟨_, _ | ⟨_, _ | ⟨_, _ | ⟨_, pre⟩⟩⟩⟩ <;> cases split
  · decide +kernel
  · decide +kernel
  · decide +kernel

/-- The outer block has written before it runs the nested one.  Both end well, nobody else is there, and the
    write is lost. -/
theorem nested_block_loses_write :
    let before : List (Action Unit Unit) := [.announce, .register ⟨1⟩, .act ⟨1⟩ (.enter 1 .regular)]
    let write : Action Unit Unit := .act ⟨1⟩ (.call (.write ⟨16, 0⟩ (.u64 7)))
    let nested : List (Action Unit Unit) :=
      [.act ⟨1⟩ (.enter 2 .regular), .act ⟨1⟩ (.call (.write ⟨16, 1⟩ (.u64 8))),
       .act ⟨1⟩ (.leave (.value ()))]
    let leave : Action Unit Unit := .act ⟨1⟩ (.leave (.value ()))
    let t := (Chronicle.start smallRuntime pair).run before
    let t' := (t.step write).run nested
    (t.system.step write).1 = .replied .done ∧
      (t'.system.step leave).1 = .ended (.validated ()) ∧
      (t'.step leave).system.runtime.memory.words ⟨16, 0⟩ = 1 ∧
      (t'.step leave).system.runtime.memory.words ⟨16, 1⟩ = 8 := by
  decide +kernel

end TransactionalMemory
