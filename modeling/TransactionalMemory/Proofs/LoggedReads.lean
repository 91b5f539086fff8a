import TransactionalMemory.Proofs.Promises
import TransactionalMemory.Proofs.Readings
import TransactionalMemory.Proofs.Recall

/-! # Reads that are under watch

The two logs of reads hold what the mode of the attempt promises, and nothing else (`logs_hold_promised_reads`).  Each
entry stands for one of the reads: at a moment between the access before it and its answer, the field had the value
that was answered and the slot was free with the stamp of the entry.

This needs no limit on the run.  What is in a log depends only on what its own attempt has done, so the steps of others
do not matter, and neither do the clock and the slots that are held.  What an attempt has seen of memory is carried
along as a set of sights, which a step can only add to (`Chronicle.Accounts`).
-/

namespace TransactionalMemory

variable {α ε : Type}

/-! ## Steps of a worker -/

theorem Worker.advance_of_faulted {w : Worker} {p : Progress × Scope} {f : Fault} (faulted : p.1 = .faulted f)
    (ofBlock : Bool) : (w.advance (α := α) (ε := ε) ofBlock p).1 = .faulted f := by
  obtain ⟨a, s⟩ := p
  cases faulted
  cases ofBlock <;> rfl

/-- Only what the segment has answered is told to the client as its answer. -/
theorem Worker.answered_of_advance {w : Worker} {ofBlock : Bool} {p : Progress × Scope} {reply : Reply}
    (told : (w.advance (α := α) (ε := ε) ofBlock p).1 = .replied reply) : p.1 = .answered reply := by
  obtain ⟨a, s⟩ := p
  cases a with
  | answered a =>
    cases told
    rfl
  | faulted f => cases ofBlock <;> cases told
  | standing e rest => cases told
  | commitLost => exact absurd told (afterConflict_ne rfl)

namespace Scope

/-- A look at the lock of a location answers no value and has no bound to raise. -/
theorem probe_told (s : Scope) (l : Location) : (∀ u, (s.probe l).1 ≠ .answered (.value u)) ∧
    ∀ e candidate next, (s.probe l).1 ≠ .standing e (.extend candidate next) := by
  simp only [probe]
  generalize s.runtime.table.check _ _ = checked
  cases ended : s.obstacle? with
  | some a =>
    unfold obstacle? at ended
    split at ended <;> cases ended <;> exact ⟨by rintro u ⟨⟩, by rintro e candidate next ⟨⟩⟩
  | none =>
    cases checked with
    | error f => exact ⟨by rintro u ⟨⟩, by rintro e candidate next ⟨⟩⟩
    | ok looked => cases looked <;> exact ⟨by rintro u ⟨⟩, by rintro e candidate next ⟨⟩⟩

theorem extend_answers {s : Scope} {e : Event} {candidate : Nat} {next : AfterExtension}
    (stands : s.extend.1 = .standing e (.extend candidate next)) : next = .answer := by
  unfold extend tryExtend at stands
  dsimp only at stands
  split at stands <;> cases stands
  rfl

theorem finishCommit_ne_standing (s : Scope) (wroteNothing : Bool) (e : Event) (rest : Pending) :
    (s.finishCommit wroteNothing).1 ≠ .standing e rest := by
  rcases s.finishCommit_told wroteNothing with told | told <;> rw [told] <;> exact Progress.noConfusion

theorem storeWrites_ne_standing (s : Scope) (stamp : Nat) (e : Event) (rest : Pending) :
    (s.storeWrites stamp).1 ≠ .standing e rest := by
  unfold storeWrites
  dsimp only
  split
  · exact Progress.noConfusion
  · exact finishCommit_ne_standing _ _ e rest

theorem finishAbort_ne_standing (s : Scope) (c : Conflict) (site : AbortSite) (e : Event) (rest : Pending) :
    (s.finishAbort c site).1 ≠ .standing e rest := by
  unfold finishAbort
  split
  · exact Progress.noConfusion
  · split
    · exact Progress.noConfusion
    · cases site <;> exact Progress.noConfusion

theorem commit_ne_extend (s : Scope) (site : AbortSite) (e : Event) (candidate : Nat) (next : AfterExtension) :
    (s.commit site).1 ≠ .standing e (.extend candidate next) := by
  unfold commit
  split
  · exact Progress.noConfusion
  · exact Progress.noConfusion
  · exact Progress.noConfusion
  · split
    · exact finishCommit_ne_standing _ _ e _
    · dsimp only
      split
      · exact Progress.noConfusion
      · unfold commitAt
        dsimp only
        split
        · exact Progress.noConfusion
        · split
          · exact storeWrites_ne_standing _ _ e _
          · split
            · exact Progress.noConfusion
            · exact storeWrites_ne_standing _ _ e _
            · rintro ⟨⟩

end Scope

namespace Worker

/-- A step that comes down to a segment which leaves the logs alone and has not come to stand at an event. -/
structure Concludes (w : Worker) (p : Progress × Scope) (out : Response α ε × Runtime × Worker) : Prop where
  relays : Relays p out
  spares : w.context.Spares p.2.context
  settled : p.1.isOver = true
  plain : out.1 ≠ .attempt

theorem concludes_leaveOnConflict (w : Worker) (c : Conflict) (r : Runtime) :
    ∃ p, w.Concludes p (w.leaveOnConflict (α := α) (ε := ε) c r) := by
  unfold leaveOnConflict
  dsimp only
  split
  · next f _ => exact ⟨(.faulted f, _), .closeFault w f, .refl _, rfl, nofun⟩
  · next tally _ =>
    have spares := Scope.spares_rollback ⟨r, { w.context with tally }⟩
    have spares : w.context.Spares _ := ⟨spares.mode, spares.reads, spares.window, spares.writes, spares.active⟩
    split
    · next f s rolled =>
      rw [show Scope.rollback ⟨r, { w.context with tally }⟩ = _ from rolled] at spares
      exact ⟨(.faulted f, s), .closeFault w f, spares, rfl, nofun⟩
    · next s rolled =>
      rw [show Scope.rollback ⟨r, { w.context with tally }⟩ = _ from rolled] at spares
      exact ⟨(.commitLost, s), .afterConflict rfl w c, spares, rfl, afterConflict_ne rfl⟩

theorem concludes_unwind (w : Worker) (r : Runtime) : ∃ p, w.Concludes p (w.unwind (α := α) (ε := ε) r) := by
  have spares : w.context.Spares _ := (w.scope r).spares_rollback
  unfold unwind
  split
  · next f s rolled =>
    rw [rolled] at spares
    exact ⟨(.faulted f, s), .closeFault w f, spares, rfl, nofun⟩
  · next s rolled =>
    rw [rolled] at spares
    exact ⟨(.answered .done, s), .close rfl w nofun nofun, spares, rfl, nofun⟩

end Worker

namespace Seat

variable {d : Seat} {l : Location}

theorem source_of_unheld (wf : d.context.writes.WellFormed d.slotOf)
    (unheld : d.context.writes.stamp? (d.slotOf l) = none) : d.source l = .free := by
  simp [source, RedoLog.owns, wf.value?_of_not_held unheld, unheld]

theorem source_of_held (held : d.context.writes.owns (d.slotOf l) = true) : d.source l ≠ .free := by
  simp only [source, held, ↓reduceIte]
  split <;> exact Source.noConfusion

/-- Only a write is completed without a value. -/
theorem access?_of_no_value {action : WorkerAction α ε} {response : Response α ε}
    (values : ∀ v, response ≠ .replied (.value v)) (other : ∀ l v, action ≠ .call (.write l v)) :
    d.access? action response = none := by
  unfold access?
  split
  · exact absurd rfl (values _)
  · exact absurd rfl (values _)
  · exact absurd rfl (other _ _)
  · exact absurd rfl (values _)
  · rfl

theorem access?_of_undone {v : Value} {response : Response α ε} (undone : response ≠ .replied .done) :
    d.access? (.call (.write l v)) response = none := by
  cases response with
  | replied a =>
    cases a with
    | done => exact absurd rfl undone
    | _ => rfl
  | _ => rfl

/-- A call that goes on without a field to read completes no access. -/
theorem access?_of_fieldless {rest : Pending} (waiting : d.pending = some rest) (fieldless : rest.location? = none)
    (response : Response α ε) : d.access? .resume response = none := by
  cases response with
  | replied a =>
    cases a with
    | value v =>
      simp only [access?, waiting]
      cases rest with
      | extend candidate next =>
        cases next with
        | answer => rfl
        | _ => cases fieldless
      | _ => rfl
    | _ => rfl
  | _ => rfl

theorem breaksAbort_of_faulted (aborts : Pending.isAbort d.pending) (f : Fault) :
    d.breaksAbort (.faulted f : Response α ε) = true := by
  cases waiting : d.pending with
  | none => rw [waiting] at aborts; cases aborts
  | some rest =>
    rw [waiting] at aborts
    cases rest with
    | abort c site => simp [breaksAbort, waiting]
    | _ => cases aborts

end Seat

/-! ## Reads of an attempt and their entries -/

/-- What can be seen of a field: its value, under a slot that is free with the stamp, by an attempt that has completed
    the accesses so far. -/
structure Sight where
  sofar : List Access
  location : Location
  kind : Kind
  slot : Nat
  stamp : Nat
  value : Value

/-- An entry stands for a read among the accesses: it has the location that was read and its slot, and the stamp that
    was seen with the value, after the accesses before the read. -/
structure ReadEntry.Stands (slotOf : Location → Nat) (seen : Sight → Prop) (accesses : List Access) (e : ReadEntry)
    (q : Reading) : Prop where
  location : e.location = q.location
  slot : e.slot = slotOf q.location
  seen : ∃ sofar, sofar ++ [.read q] <+: accesses ∧ seen ⟨sofar, q.location, q.kind, e.slot, e.observed, q.value⟩

theorem ReadEntry.Stands.later {slotOf : Location → Nat} {seen seen' : Sight → Prop} {accesses accesses' : List Access}
    {e : ReadEntry} {q : Reading} (stands : e.Stands slotOf seen accesses q) (more : accesses <+: accesses')
    (keep : ∀ x, seen x → seen' x) : e.Stands slotOf seen' accesses' q := by
  obtain ⟨sofar, early, sight⟩ := stands.seen
  exact ⟨stands.location, stands.slot, sofar, early.trans more, keep _ sight⟩

namespace Chronicle

variable {r : Runtime} {t t' : Chronicle} {seen seen' : Sight → Prop} {owner : OwnerId} {w : Worker} {l : Location}
  {kind : Kind} {v : Value}

/-- What a read that stands before the bound moves has made sure of. -/
def Awaited (r : Runtime) (t : Chronicle) (seen : Sight → Prop) (owner : OwnerId) (w : Worker) :
    AfterExtension → Prop
  | .answer => True
  | .loadHeld l _ => w.context.writes.owns (r.table.slotOf l) = true
  | .recheck l kind slot stamp v =>
    slot = r.table.slotOf l ∧ w.context.writes.stamp? slot = none ∧
      seen ⟨(t.attempts owner).accesses, l, kind, slot, stamp, v⟩

/-- What is known of the logs of a context: they keep the promise of the mode, as long as all accesses of the attempt
    have succeeded, and none was left standing by an abort that met a fault. -/
structure Accounts (r : Runtime) (t : Chronicle) (seen : Sight → Prop) (owner : OwnerId) (w : Worker) : Prop where
  tidy : w.context.Tidy r.table.slotOf
  capacity : w.context.window.capacity = r.settings.window
  waits : ∀ candidate next, w.pending = some (.extend candidate next) → Awaited r t seen owner w next
  logs : w.context.phase = .active → ¬ Pending.isAbort w.pending → (t.attempts owner).broken = false →
    w.context.Promised (ReadEntry.Stands r.table.slotOf seen (t.attempts owner).accesses) r.settings.window
      (t.attempts owner).accesses

theorem Awaited.later {next : AfterExtension} (awaited : Awaited r t seen owner w next)
    (same : (t'.attempts owner).accesses = (t.attempts owner).accesses) (keep : ∀ x, seen x → seen' x) :
    Awaited r t' seen' owner w next := by
  cases next with
  | recheck l kind slot stamp v =>
    obtain ⟨place, unheld, sight⟩ := awaited
    rw [Awaited, same]
    exact ⟨place, unheld, keep _ sight⟩
  | _ => exact awaited

/-- A context does not notice what others do. -/
theorem Accounts.beside (h : Accounts r t seen owner w) (same : t'.attempts owner = t.attempts owner)
    (keep : ∀ x, seen x → seen' x) : Accounts r t' seen' owner w where
  tidy := h.tidy
  capacity := h.capacity
  waits candidate next standing := (h.waits candidate next standing).later (congrArg Attempt.accesses same) keep
  logs active clear whole := by
    rw [same] at whole ⊢
    exact (h.logs active clear whole).mono fun _ _ stands => stands.later (List.prefix_refl _) keep

/-! ### Steps of the context itself -/

section

variable {action : WorkerAction α ε} {out : Response α ε × Runtime × Worker}
  (here : t.system.worker? owner = some w) (stepped : w.step t.system.runtime action = out)

include here stepped

theorem attempts_goes (plain : Seat.begins action out.1 = false) :
    ((t.step (.act owner action)).attempts owner).number = (t.attempts owner).number ∧
      ((t.step (.act owner action)).attempts owner).accesses =
        (t.attempts owner).accesses ++ ((t.seat owner w).access? action out.1).toList ∧
      ((t.step (.act owner action)).attempts owner).broken =
        ((t.attempts owner).broken || (t.seat owner w).breaksAbort out.1) := by
  have attempt : (t.step (.act owner action)).attempts owner = (t.seat owner w).attemptAfter action out.1 := by
    rw [step_act here]
    dsimp only
    rw [if_pos rfl, stepped]
    rfl
  rw [attempt, Seat.attemptAfter, if_neg (Bool.eq_false_iff.mp plain)]
  exact ⟨rfl, rfl, rfl⟩

variable (h : Accounts r t seen owner w)

include h

/-- A step that begins an attempt. -/
theorem Accounts.begins (begun : Seat.begins action out.1 = true) (blank : w.context.Blank out.2.2.context)
    (free : out.2.2.pending = none) : Accounts r (t.step (.act owner action)) seen' owner out.2.2 := by
  have attempt : ((t.step (.act owner action)).attempts owner).accesses = [] := by
    rw [step_act here]
    dsimp only
    rw [if_pos rfl, stepped, Seat.next, Seat.attemptAfter, if_pos begun]
  refine ⟨h.tidy.blank blank, by rw [blank.window]; exact h.capacity, ?_, ?_⟩
  · intro candidate next standing
    cases free.symm.trans standing
  · intro _ _ _
    rw [attempt]
    refine .blank ?_ blank.reads (by rw [blank.window]; rfl)
    rcases blank.writes with ⟨same, none⟩ | empty
    · rwa [same]
    · rw [empty]
      rfl

variable (plain : Seat.begins action out.1 = false) (keep : ∀ x, seen x → seen' x)

include plain keep

/-- A step that leaves the logs alone. -/
theorem Accounts.spares (spares : w.context.Spares out.2.2.context)
    (silent : (t.seat owner w).access? action out.1 = none)
    (waits : ∀ candidate next, out.2.2.pending = some (.extend candidate next) →
      out.2.2 = w ∨ Awaited r (t.step (.act owner action)) seen' owner out.2.2 next)
    (steady : Pending.isAbort w.pending → out.2.2.context.phase = .active →
      out.2.2 = w ∨ ∃ f, out.1 = .faulted f) : Accounts r (t.step (.act owner action)) seen' owner out.2.2 := by
  obtain ⟨-, accesses, broken⟩ := attempts_goes here stepped plain
  rw [silent, Option.toList_none, List.append_nil] at accesses
  refine ⟨h.tidy.spares spares, by rw [spares.window]; exact h.capacity, ?_, ?_⟩
  · intro candidate next standing
    rcases waits candidate next standing with same | awaited
    · rw [same] at standing ⊢
      exact (h.waits candidate next standing).later accesses keep
    · exact awaited
  · intro active clear whole
    rw [broken, Bool.or_eq_false_iff] at whole
    -- No abort was standing before: it would still stand, or be broken now.
    have cleared : ¬ Pending.isAbort w.pending := by
      intro aborts
      rcases steady aborts active with same | ⟨f, faulted⟩
      · exact clear (same ▸ aborts)
      · rw [faulted, Seat.breaksAbort_of_faulted aborts f] at whole
        cases whole.2
    have promised := h.logs (spares.active active) cleared whole.1
    rw [accesses]
    refine (promised.of_logs spares.mode ?_ spares.reads spares.window).mono fun _ _ stands =>
      stands.later (List.prefix_refl _) keep
    exact spares.writes.resolve_right fun ended => ended.2 active

/-- A step that completes an access, and is not the end of an abort. -/
theorem Accounts.access {x : Access} (made : (t.seat owner w).access? action out.1 = some x)
    (tidy : out.2.2.context.Tidy r.table.slotOf)
    (capacity : out.2.2.context.window.capacity = w.context.window.capacity)
    (active : out.2.2.context.phase = .active → w.context.phase = .active)
    (settled : ∀ candidate next, out.2.2.pending ≠ some (.extend candidate next))
    (clear : ¬ Pending.isAbort w.pending)
    (logs : ∀ stands : ReadEntry → Reading → Prop,
      (∀ e q, e.Stands r.table.slotOf seen' ((t.attempts owner).accesses ++ [x]) q → stands e q) →
      w.context.Promised stands r.settings.window (t.attempts owner).accesses →
      out.2.2.context.Promised stands r.settings.window ((t.attempts owner).accesses ++ [x])) :
    Accounts r (t.step (.act owner action)) seen' owner out.2.2 := by
  obtain ⟨-, accesses, broken⟩ := attempts_goes here stepped plain
  rw [made, Option.toList_some] at accesses
  refine ⟨tidy, capacity.trans h.capacity, fun candidate next standing => absurd standing (settled candidate next), ?_⟩
  intro now _ whole
  rw [broken, Bool.or_eq_false_iff] at whole
  rw [accesses]
  refine logs _ (fun _ _ => id) ((h.logs (active now) clear whole.1).mono fun _ _ stands => ?_)
  exact stands.later (List.prefix_append _ _) keep

variable {p : Progress × Scope} {ofBlock : Bool} (advanced : out = w.advance ofBlock p)
  (clear : ¬ Pending.isAbort w.pending)

include advanced clear

/-- A step of a read. -/
theorem Accounts.notes (room : 0 < r.settings.window) (akin : r.Akin t.system.runtime)
    (now : ∀ l kind slot stamp v, (w.scope t.system.runtime).Saw l kind slot stamp v →
      seen' ⟨(t.attempts owner).accesses, l, kind, slot, stamp, v⟩)
    (notes : Scope.Notes (w.scope t.system.runtime) l kind (r.table.slotOf l)
      (fun stamp v => seen' ⟨(t.attempts owner).accesses, l, kind, r.table.slotOf l, stamp, v⟩) p)
    (finds : ∀ v, out.1 = .replied (.value v) →
      (t.seat owner w).access? action out.1 = some (.read ((t.seat owner w).reading l kind v)))
    (other : ∀ l v, action ≠ .call (.write l v)) :
    Accounts r (t.step (.act owner action)) seen' owner out.2.2 := by
  have relays : Worker.Relays p out := advanced ▸ .advance w ofBlock p
  have context : out.2.2.context = p.2.context := congrArg (·.context) relays.landing
  have answered : ∀ reply, out.1 = .replied reply → p.1 = .answered reply := fun reply told =>
    Worker.answered_of_advance (advanced ▸ told)
  have tidy : w.context.Tidy r.table.slotOf := h.tidy
  cases notes with
  | nothing upper unanswered stands =>
    have silent : (t.seat owner w).access? action out.1 = none :=
      Seat.access?_of_no_value (fun v told => unanswered v (answered _ told)) other
    obtain ⟨-, accesses, -⟩ := attempts_goes here stepped plain
    rw [silent, Option.toList_none, List.append_nil] at accesses
    refine h.spares here stepped plain keep ?_ silent ?_ fun aborts => absurd aborts clear
    · rw [context]
      exact ⟨rfl, rfl, rfl, Or.inl rfl, id⟩
    · intro candidate next standing
      rcases relays.pending _ standing with gives | ⟨e, standing⟩
      · cases gives
      · rcases stands e _ standing with ⟨c, aborts⟩ | ⟨candidate', next', suspended, intends⟩
        · cases aborts
        · cases suspended
          right
          cases next with
          | answer => trivial
          | loadHeld k kind' =>
            obtain ⟨rfl, rfl, held⟩ := intends
            rw [Awaited, context]
            exact held
          | recheck k kind' slot stamp v =>
            obtain ⟨rfl, rfl, rfl, unheld, saw⟩ := intends
            rw [Awaited, context, accesses]
            exact ⟨rfl, unheld, now _ _ _ _ _ saw⟩
  | own v upper held =>
    have told : out.1 = .replied (.value v) := by rw [advanced]; rfl
    refine h.access here stepped plain keep (finds v told) ?_ (by rw [context]; rfl) (by rw [context]; exact id)
      ?_ clear ?_
    · rw [context]
      exact tidy.of_logs rfl rfl rfl
    · intro candidate next standing
      rw [advanced] at standing
      cases standing
    · intro stands _ promised
      rw [context]
      refine (promised.own (Context.not_isFast_of_owns tidy held) ?_).of_logs rfl rfl rfl rfl
      refine Seat.source_of_held ?_
      rw [Seat.slotOf, seat, akin.slotOf]
      exact held
  | entry v stamp upper unheld sight =>
    have told : out.1 = .replied (.value v) := by rw [advanced]; rfl
    have free : (t.seat owner w).source l = .free := by
      refine Seat.source_of_unheld ?_ ?_
      · show w.context.writes.WellFormed t.system.runtime.table.slotOf
        rw [akin.slotOf]
        exact tidy.writes
      · rw [Seat.slotOf, seat, akin.slotOf]
        exact unheld
    refine h.access here stepped plain keep (finds v told) ?_ ?_ ?_ ?_ clear ?_
    · have raised : ((w.scope t.system.runtime).withBound upper).context.Tidy r.table.slotOf :=
        tidy.of_logs rfl rfl rfl
      rw [context]
      exact raised.logRead l stamp
    · rw [context]
      unfold Context.logRead
      split <;> rfl
    · rw [context]
      unfold Context.logRead
      split <;> exact id
    · intro candidate next standing
      rw [advanced] at standing
      cases standing
    · intro stands new promised
      rw [context]
      refine Context.Promised.entry (promised.of_logs rfl rfl rfl rfl) room h.capacity free (new _ _ ?_)
      exact ⟨rfl, rfl, _, List.prefix_refl _, sight⟩

/-- A step of a write. -/
theorem Accounts.enters
    (enters : Scope.Enters (w.scope t.system.runtime) l (r.table.slotOf l) v p)
    (finds : out.1 = .replied .done → (t.seat owner w).access? action out.1 = some (.write l v))
    (silent : out.1 ≠ .replied .done → (t.seat owner w).access? action out.1 = none) :
    Accounts r (t.step (.act owner action)) seen' owner out.2.2 := by
  have relays : Worker.Relays p out := advanced ▸ .advance w ofBlock p
  have context : out.2.2.context = p.2.context := congrArg (·.context) relays.landing
  have tidy : w.context.Tidy r.table.slotOf := h.tidy
  -- A write that was answered is logged, so that the attempt has written from here on.
  have wrote : ∀ {writes : RedoLog} {stamp : Option Nat},
      w.context.writes.append (r.table.slotOf l) l v stamp = .ok writes → writes.isEmpty = false := by
    intro writes stamp appended
    have told := tidy.writes.append appended
    obtain ⟨e, member, -⟩ := (RedoLog.value?_eq_some_iff told.wellFormed).mp ((told.value l).trans (if_pos rfl))
    exact List.isEmpty_eq_false_iff.mpr (List.ne_nil_of_mem member)
  have settled : ∀ {s : Scope}, out = w.advance ofBlock (.answered .done, s) → out.1 = .replied .done ∧
      ∀ candidate next, out.2.2.pending ≠ some (.extend candidate next) := by
    rintro s rfl
    exact ⟨rfl, fun candidate next standing => by cases standing⟩
  cases enters with
  | nothing undone stands =>
    have undone : out.1 ≠ .replied .done := fun told => undone (Worker.answered_of_advance (advanced ▸ told))
    refine h.spares here stepped plain keep ?_ (silent undone) ?_ fun aborts => absurd aborts clear
    · rw [context]
      exact .refl _
    · intro candidate next standing
      rcases relays.pending _ standing with gives | ⟨e, standing⟩
      · cases gives
      · obtain ⟨c, aborts⟩ := stands e _ standing
        cases aborts
  | entry runtime writes stamp appended slow =>
    obtain ⟨told, settled⟩ := settled advanced
    refine h.access here stepped plain keep (finds told) ?_ (by rw [context]; rfl) (by rw [context]; exact id) settled
      clear ?_
    · rw [context]
      exact tidy.append appended
    · intro stands _ promised
      rw [context]
      exact promised.write slow (wrote appended)
  | first runtime writes stamp appended fast =>
    obtain ⟨told, settled⟩ := settled advanced
    refine h.access here stepped plain keep (finds told) ?_ (by rw [context]; rfl) (by rw [context]; exact id) settled
      clear ?_
    · rw [context]
      exact (tidy.append appended).drainWindow
    · intro stands _ promised
      rw [context]
      exact promised.first fast (wrote appended)
  | stale runtime writes stamp e c appended =>
    have aborts : out.2.2.pending = some (.abort c .access) := by rw [advanced]; rfl
    refine ⟨?_, by rw [context]; exact h.capacity, ?_, ?_⟩
    · rw [context]
      exact tidy.append appended
    · intro candidate next standing
      cases aborts.symm.trans standing
    · intro _ clear
      rw [aborts] at clear
      exact absurd trivial clear

omit advanced clear

/-- A step of a call that does not read and does not stand before a read. -/
theorem Accounts.quiet (relays : Worker.Relays p out) (spares : w.context.Spares p.2.context)
    (silent : (t.seat owner w).access? action out.1 = none)
    (stands : ∀ e candidate next, p.1 = .standing e (.extend candidate next) → next = .answer)
    (steady : Pending.isAbort w.pending → p.2.context.phase = .active → ∃ f, out.1 = .faulted f) :
    Accounts r (t.step (.act owner action)) seen' owner out.2.2 := by
  have context : out.2.2.context = p.2.context := congrArg (·.context) relays.landing
  refine h.spares here stepped plain keep (context ▸ spares) silent ?_ fun aborts active =>
    Or.inr (steady aborts (context ▸ active))
  intro candidate next standing
  rcases relays.pending _ standing with gives | ⟨e, standing⟩
  · cases gives
  · rw [stands e candidate next standing]
    exact Or.inr trivial

omit plain keep

/-- A step that begins an attempt, or cannot give back the slots of the one before. -/
theorem Accounts.starts (keep : Seat.begins action out.1 = false → ∀ x, seen x → seen' x) (block : Nat) (mode : Mode)
    (clear : ¬ Pending.isAbort w.pending)
    (failed : ∀ f s, (w.scope t.system.runtime).start block mode = (.error f, s) →
      Worker.landing out = s ∧ Seat.begins action out.1 = false ∧ out.2.2.pending = none ∧
        (t.seat owner w).access? action out.1 = none)
    (started : ∀ s, (w.scope t.system.runtime).start block mode = (.ok (), s) →
      Worker.landing out = s ∧ Seat.begins action out.1 = true ∧ out.2.2.pending = none) :
    Accounts r (t.step (.act owner action)) seen' owner out.2.2 := by
  rcases (w.scope t.system.runtime).start_cases block mode with ⟨f, s, fails, spares⟩ | ⟨s, succeeds, blank⟩
  · obtain ⟨rfl, plain, settled, silent⟩ := failed f s fails
    refine h.spares here stepped plain (keep plain) spares silent ?_ fun aborts => absurd aborts clear
    intro candidate next standing
    cases settled.symm.trans standing
  · obtain ⟨rfl, begun, settled⟩ := started s succeeds
    exact h.begins here stepped begun blank settled

end

section

variable (h : Accounts r t seen owner w) (here : t.system.worker? owner = some w) (room : 0 < r.settings.window)
  (akin : r.Akin t.system.runtime)

include h here room akin

/-- A step that asks for a call. -/
theorem Accounts.calls (idle : w.isBusy = false) (request : Request)
    (stepped : w.step t.system.runtime (.call request : WorkerAction α ε) =
      w.advance false ((w.scope t.system.runtime).perform request))
    (keep : Seat.begins (.call request)
      (w.advance (α := α) (ε := ε) false ((w.scope t.system.runtime).perform request)).1 = false →
      ∀ x, seen x → seen' x)
    (now : Seat.begins (.call request)
      (w.advance (α := α) (ε := ε) false ((w.scope t.system.runtime).perform request)).1 = false →
      ∀ l kind slot stamp v, (w.scope t.system.runtime).Saw l kind slot stamp v →
        seen' ⟨(t.attempts owner).accesses, l, kind, slot, stamp, v⟩) :
    Accounts r (t.step (.act owner (.call request : WorkerAction α ε))) seen' owner
      (w.advance (α := α) (ε := ε) false ((w.scope t.system.runtime).perform request)).2.2 := by
  have clear : ¬ Pending.isAbort w.pending := Pending.not_isAbort_of_free (Worker.free_of_not_isBusy idle)
  have relays := Worker.Relays.advance (α := α) (ε := ε) w false ((w.scope t.system.runtime).perform request)
  have plain : (∀ block mode, request ≠ .start block mode) → Seat.begins (.call request : WorkerAction α ε)
      (w.advance false ((w.scope t.system.runtime).perform request)).1 = false := by
    refine fun other => Seat.begins_of_plain ?_ (Worker.attempt_ne_advance w false _)
    rintro block mode ⟨⟩
    exact other block mode rfl
  have place : ∀ l, (w.scope t.system.runtime).runtime.table.slotOf l = r.table.slotOf l := congrFun akin.slotOf
  cases request with
  | start block mode =>
    refine h.starts here stepped keep block mode clear ?_ ?_
    · intro f s failed
      rw [Scope.perform, failed]
      exact ⟨rfl, rfl, rfl, rfl⟩
    · intro s started
      rw [Scope.perform, started]
      exact ⟨rfl, rfl, rfl⟩
  | probe l =>
    have plain := plain (by rintro _ _ ⟨⟩)
    refine h.quiet here stepped plain (keep plain) relays ?_ rfl ?_ fun aborts => absurd aborts clear
    · rw [Scope.perform, Leads.probe_snd]
      exact .refl _
    · exact fun e candidate next stands => absurd stands ((Scope.probe_told _ l).2 e candidate next)
  | load l kind =>
    have plain := plain (by rintro _ _ ⟨⟩)
    have notes : Scope.Notes _ l kind _ _ _ := .load (w.scope t.system.runtime)
    rw [place] at notes
    refine h.notes here stepped plain (keep plain) rfl clear room akin (now plain)
      (notes.mono fun _ _ saw => now plain _ _ _ _ _ saw) (fun v told => ?_) (by rintro _ _ ⟨⟩)
    rw [told]
    rfl
  | read l kind =>
    have plain := plain (by rintro _ _ ⟨⟩)
    have notes : Scope.Notes _ l kind _ _ _ := .read (w.scope t.system.runtime)
    rw [place] at notes
    refine h.notes here stepped plain (keep plain) rfl clear room akin (now plain)
      (notes.mono fun _ _ saw => now plain _ _ _ _ _ saw) (fun v told => ?_) (by rintro _ _ ⟨⟩)
    rw [told]
    rfl
  | write l v =>
    have plain := plain (by rintro _ _ ⟨⟩)
    have tidy : w.context.Tidy t.system.runtime.table.slotOf := by
      rw [akin.slotOf]
      exact h.tidy
    have enters := Scope.Enters.write (l := l) (v := v) (w.scope t.system.runtime) tidy
    rw [place] at enters
    refine h.enters here stepped plain (keep plain) rfl clear enters (fun told => ?_)
      Seat.access?_of_undone
    rw [told]
    rfl
  | commit =>
    have plain := plain (by rintro _ _ ⟨⟩)
    exact h.quiet here stepped plain (keep plain) relays
      (Scope.spares_commit (w.scope t.system.runtime) .commit) rfl
      (fun e candidate next stands => absurd stands (Scope.commit_ne_extend _ _ e candidate next))
      fun aborts => absurd aborts clear
  | rollback =>
    have plain := plain (by rintro _ _ ⟨⟩)
    refine h.quiet here stepped plain (keep plain) relays ?_ rfl
      (fun e candidate next stands => absurd stands (Scope.silent_ne_standing _ e _))
      fun aborts => absurd aborts clear
    rw [Scope.perform, Scope.silent_snd]
    exact Scope.spares_rollback (w.scope t.system.runtime)
  | extend =>
    have plain := plain (by rintro _ _ ⟨⟩)
    refine h.quiet here stepped plain (keep plain) relays ?_ rfl
      (fun e candidate next => Scope.extend_answers) fun aborts => absurd aborts clear
    rw [Scope.perform, Scope.extend_snd]
    exact .refl _
  | publish =>
    have plain := plain (by rintro _ _ ⟨⟩)
    refine h.quiet here stepped plain (keep plain) relays ?_ rfl
      (fun e candidate next stands => absurd stands (Scope.silent_ne_standing _ e _))
      fun aborts => absurd aborts clear
    rw [Scope.perform, Scope.silent_snd]
    exact Scope.spares_publish (w.scope t.system.runtime)

/-- A step that goes on with a call. -/
theorem Accounts.resumes {rest : Pending} (waiting : w.pending = some rest)
    (stepped : w.step t.system.runtime (.resume : WorkerAction α ε) = w.resume rest t.system.runtime)
    (keep : ∀ x, seen x → seen' x)
    (now : ∀ l kind slot stamp v, (w.scope t.system.runtime).Saw l kind slot stamp v →
      seen' ⟨(t.attempts owner).accesses, l, kind, slot, stamp, v⟩) :
    Accounts r (t.step (.act owner (.resume : WorkerAction α ε))) seen' owner
      (w.resume (α := α) (ε := ε) rest t.system.runtime).2.2 := by
  have relays := Worker.Relays.resume (α := α) (ε := ε) w rest t.system.runtime
  have plain : Seat.begins (.resume : WorkerAction α ε) (w.resume rest t.system.runtime).1 = false :=
    Seat.begins_of_plain (by rintro _ _ ⟨⟩) (Worker.attempt_ne_resume w rest _)
  cases rest with
  | abort c site =>
    refine h.quiet here stepped plain keep relays (Scope.spares_finishAbort (w.scope _) c site)
      (Seat.access?_of_fieldless waiting rfl _) ?_ ?_
    · exact fun e candidate next stands => absurd stands (Scope.finishAbort_ne_standing _ c site e _)
    · intro _ active
      obtain ⟨f, faulted⟩ := Scope.ended_of_finishAbort active
      rw [Worker.resume_eq_advance rfl]
      exact ⟨f, Worker.advance_of_faulted faulted _⟩
  | failCommit site =>
    refine h.quiet here stepped plain keep relays (.refl _) (Seat.access?_of_fieldless waiting rfl _) ?_ ?_
    · rintro e candidate next ⟨⟩
    · intro aborts
      rw [waiting] at aborts
      cases aborts
  | giveUp reason report =>
    refine h.quiet here stepped plain keep relays ?_ (Seat.access?_of_fieldless waiting rfl _) ?_ ?_
    · rw [Scope.resume, Scope.silent_snd]
      exact Scope.spares_finishGiveUp (w.scope t.system.runtime) reason
    · exact fun e candidate next stands => absurd stands (Scope.silent_ne_standing _ e _)
    · intro aborts
      rw [waiting] at aborts
      cases aborts
  | extend candidate next =>
    have clear : ¬ Pending.isAbort w.pending := by
      rw [waiting]
      exact id
    have awaited := h.waits candidate next waiting
    cases next with
    | answer =>
      refine h.quiet here stepped plain keep relays ⟨rfl, rfl, rfl, Or.inl rfl, id⟩
        (Seat.access?_of_fieldless waiting rfl _) ?_ fun aborts => absurd aborts clear
      rintro e candidate next ⟨⟩
    | loadHeld l kind =>
      refine h.notes here stepped plain keep (Worker.resume_eq_advance rfl) clear room akin now
        (.takeHeld (w.scope t.system.runtime) candidate awaited) (fun v told => ?_) (by rintro _ _ ⟨⟩)
      rw [told]
      simp only [Seat.access?, seat, waiting]
    | recheck l kind slot stamp v =>
      obtain ⟨rfl, unheld, sight⟩ := awaited
      have inside : r.table.slotOf l < t.system.runtime.table.size := by
        rw [← akin.slotOf]
        exact LockTable.slotOf_lt_size _ l
      refine h.notes here stepped plain keep (Worker.resume_eq_advance rfl) clear room akin now
        ((Scope.Notes.recheck (w.scope t.system.runtime) candidate inside unheld).mono ?_) (fun v told => ?_)
        (by rintro _ _ ⟨⟩)
      · rintro stamp' v' (saw | ⟨rfl, rfl⟩)
        · exact now _ _ _ _ _ saw
        · exact keep _ sight
      · rw [told]
        simp only [Seat.access?, seat, waiting]

/-- A step of the context, which sees what is in memory right before it and forgets nothing unless it begins an
    attempt. -/
theorem Accounts.act (action : WorkerAction α ε)
    (keep : Seat.begins action (w.step t.system.runtime action).1 = false → ∀ x, seen x → seen' x)
    (now : Seat.begins action (w.step t.system.runtime action).1 = false →
      ∀ l kind slot stamp v, (w.scope t.system.runtime).Saw l kind slot stamp v →
        seen' ⟨(t.attempts owner).accesses, l, kind, slot, stamp, v⟩) :
    Accounts r (t.step (.act owner action)) seen' owner (w.step t.system.runtime action).2.2 := by
  have dispatch := w.dispatch_step t.system.runtime action
  generalize stepped : w.step t.system.runtime action = out at dispatch keep now ⊢
  cases dispatch with
  | refuse action why =>
    refine h.spares here stepped (Seat.begins_refused action why) (keep (Seat.begins_refused action why)) (.refl _)
      ?_ (fun _ _ _ => Or.inl rfl) fun _ _ => Or.inl rfl
    cases action with
    | call request => cases request <;> rfl
    | _ => rfl
  | call idle request => exact h.calls here room akin idle request stepped keep now
  | resume rest waiting =>
    have plain : Seat.begins (.resume : WorkerAction α ε) (w.resume rest t.system.runtime).1 = false :=
      Seat.begins_of_plain (by rintro _ _ ⟨⟩) (Worker.attempt_ne_resume w rest _)
    exact h.resumes here room akin waiting stepped (keep plain) (now plain)
  | enter idle block mode =>
    have clear : ¬ Pending.isAbort w.pending := Pending.not_isAbort_of_free (Worker.free_of_not_isBusy idle)
    refine h.starts here stepped keep block mode clear ?_ ?_
    · intro f s failed
      rw [Worker.enter, failed]
      exact ⟨rfl, rfl, rfl, rfl⟩
    · intro s started
      rw [Worker.enter, started]
      exact ⟨rfl, rfl, rfl⟩
  | leave inside result =>
    have clear : ¬ Pending.isAbort w.pending := Pending.not_isAbort_of_free (Worker.free_of_inBody inside)
    have commits : ∀ result' : BlockResult α ε, w.leave result t.system.runtime = w.leaveBy result' t.system.runtime →
        Accounts r (t.step (.act owner (.leave result))) seen' owner (w.leave result t.system.runtime).2.2 := by
      intro result' same
      have plain : Seat.begins (.leave result) (w.leave result t.system.runtime).1 = false := by
        rw [same]
        exact Seat.begins_of_plain (by rintro _ _ ⟨⟩) (Worker.attempt_ne_leaveBy w result' _)
      refine h.quiet here stepped plain (keep plain) (same ▸ .leaveBy w result' _)
        (Scope.spares_commit (w.scope t.system.runtime) .block) rfl ?_ fun aborts => absurd aborts clear
      exact fun e candidate next stands => absurd stands (Scope.commit_ne_extend _ _ e candidate next)
    cases result with
    | value a => exact commits (.validated a) rfl
    | failure e => exact commits (.cancelled e) rfl
    | conflict c =>
      obtain ⟨p, ends⟩ := w.concludes_leaveOnConflict (α := α) (ε := ε) c t.system.runtime
      have plain : Seat.begins (.leave (.conflict c)) _ = false := Seat.begins_of_plain (by rintro _ _ ⟨⟩) ends.plain
      exact h.quiet here stepped plain (keep plain) ends.relays ends.spares rfl
        (fun _ _ _ stands => absurd stands (Progress.ne_standing ends.settled)) fun aborts => absurd aborts clear
  | decide free b c asking control =>
    have clear : ¬ Pending.isAbort w.pending := Pending.not_isAbort_of_free free
    cases control with
    | stop =>
      refine h.quiet here stepped rfl (keep rfl) (.giveUp (a := .answered .done) rfl w b .abandoned c) (.refl _) rfl ?_
        fun aborts => absurd aborts clear
      rintro _ _ _ ⟨⟩
    | retry =>
      refine h.starts here stepped keep b.id b.mode clear ?_ ?_
      · intro f s failed
        simp only [Worker.decide, Worker.scope] at failed ⊢
        rw [failed]
        exact ⟨rfl, rfl, rfl, rfl⟩
      · intro s started
        simp only [Worker.decide, Worker.scope] at started ⊢
        rw [started]
        exact ⟨rfl, rfl, rfl⟩
  | unwind inside =>
    have clear : ¬ Pending.isAbort w.pending := Pending.not_isAbort_of_free (Worker.free_of_atClient inside)
    obtain ⟨p, ends⟩ := w.concludes_unwind (α := α) (ε := ε) t.system.runtime
    have plain : Seat.begins .unwind _ = false := Seat.begins_of_plain (by rintro _ _ ⟨⟩) ends.plain
    exact h.quiet here stepped plain (keep plain) ends.relays ends.spares rfl
      (fun _ _ _ stands => absurd stands (Progress.ne_standing ends.settled)) fun aborts => absurd aborts clear

end

/-! ## Runs -/

/-- At some moment of the current attempt of the owner, after these accesses, the field had the value in memory and
    the slot was free with the stamp. -/
def Sighted (t₀ : Chronicle) (actions : List (Action α ε)) (owner : OwnerId) (x : Sight) : Prop :=
  ∃ before, before <+: actions ∧
    ((t₀.run before).attempts owner).number = ((t₀.run actions).attempts owner).number ∧
    ((t₀.run before).attempts owner).accesses = x.sofar ∧
    (t₀.run before).system.runtime.memory.peek x.location x.kind = .ok x.value ∧
    (t₀.run before).system.runtime.table.word x.slot = .free x.stamp

section

variable {t₀ : Chronicle} {actions : List (Action α ε)} {a : Action α ε}

theorem Sighted.later {x : Sight} (h : Sighted t₀ actions owner x)
    (same : ((t₀.run (actions ++ [a])).attempts owner).number = ((t₀.run actions).attempts owner).number) :
    Sighted t₀ (actions ++ [a]) owner x := by
  obtain ⟨before, early, number, rest⟩ := h
  exact ⟨before, early.trans (List.prefix_append ..), number.trans same.symm, rest⟩

/-- A context that exists after a step of somebody else was there before, or is new. -/
theorem worker?_step_cases (other : ∀ action, a ≠ .act owner action)
    (there : (t.step a).system.worker? owner = some w) : t.system.worker? owner = some w ∨
      ∃ window, Window.new? t.system.runtime.settings.window = .ok window ∧ w = { context := { owner, window } } := by
  rw [system_step] at there
  by_cases own : a.owner? = some owner
  · cases a with
    | announce => cases own
    | register o =>
      cases own
      simp only [System.step, System.register] at there
      split at there
      · split at there
        · exact Or.inl there
        · next window opened =>
          rw [System.worker?_setWorker, if_pos rfl] at there
          exact Or.inr ⟨window, opened, (Option.some.inj there).symm⟩
      · exact Or.inl there
    | drop o =>
      cases own
      have gone : ∀ runtime, System.worker? ⟨runtime, t.system.workers.erase owner.id, t.system.announced⟩ owner =
          none := fun runtime => (System.worker?_erase runtime).trans (if_pos rfl)
      simp only [System.step, System.drop] at there
      split at there
      · exact Or.inl there
      · split at there
        · exact Or.inl there
        · split at there
          · cases (gone _).symm.trans there
          · split at there <;> cases (gone _).symm.trans there
    | act o action =>
      cases own
      exact absurd rfl (other action)
  · exact Or.inl ((System.worker?_step_of_ne own).symm.trans there)

end

/-- The logs of every context keep the promise of its mode, whatever the run. -/
theorem accounts_run {settings : Settings} {r : Runtime} (new : Runtime.new? settings = .ok r) (m : Memory)
    (actions : List (Action α ε)) {owner : OwnerId} {w : Worker}
    (there : ((start r m).run actions).system.worker? owner = some w) :
    Accounts r ((start r m).run actions) (Sighted (start r m) actions owner) owner w := by
  obtain ⟨configured, -, -, -, room⟩ := Runtime.of_new? new
  rw [← configured] at room
  induction actions using List.reverseRecOn generalizing w with
  | nil =>
    have nobody : ((start r m).run ([] : List (Action α ε))).system.worker? owner = none := by
      simp [start, System.worker?]
    cases nobody.symm.trans there
  | append_singleton actions a ih =>
    have akin := (start r m).akin_run actions
    have akin : r.Akin ((start r m).run actions).system.runtime := ⟨akin.settings, akin.bits⟩
    rw [run_snoc] at there ⊢
    by_cases own : ∃ action, a = .act owner action
    · obtain ⟨action, rfl⟩ := own
      cases here : ((start r m).run actions).system.worker? owner with
      | none =>
        rw [system_step, System.step, System.act, here] at there
        cases here.symm.trans there
      | some w₀ =>
        rw [worker?_step_act here] at there
        cases there
        have goes := fun plain => attempts_goes here (Eq.refl (w₀.step _ action)) plain
        refine (ih here).act here room akin action (fun plain x sighted => ?_) ?_
        · refine sighted.later ?_
          rw [run_snoc]
          exact (goes plain).1
        · intro plain l kind slot stamp v saw
          refine ⟨actions, List.prefix_append .., ?_, rfl, saw.loaded, saw.word⟩
          rw [run_snoc]
          exact (goes plain).1.symm
    · have other : ∀ action, a ≠ .act owner action := fun action same => own ⟨action, same⟩
      have same := attempts_step_of_not_act (t := (start r m).run actions) other
      rcases worker?_step_cases other there with here | ⟨window, opened, rfl⟩
      · refine (ih here).beside same fun x sighted => sighted.later ?_
        rw [run_snoc, same]
      · obtain ⟨capacity, empty⟩ := Window.of_new? opened
        refine ⟨⟨RedoLog.wellFormed_empty _, List.forall_mem_nil _, ?_⟩, ?_, by rintro _ _ ⟨⟩, by rintro ⟨⟩⟩
        · rw [empty]
          exact List.forall_mem_nil _
        · exact capacity.trans (congrArg Settings.window akin.settings)

end Chronicle

/-- In every reachable state and for every active attempt that is not about to abort, whatever others do: its logs hold
    the reads that its mode promises to watch, in order.  A regular attempt logs every read of a slot that it did not
    hold when it read.  An elastic one keeps its last reads in the window, as many as the window has room for, and none
    elsewhere, until it writes; from then on they are at the front of the read log, followed by the reads since of slots
    that it did not hold, and the window is empty.  Each entry has the location of its read, the slot of the location,
    and a stamp that the slot had, in this attempt and after the accesses before the read, while the value that was
    answered was in memory. -/
theorem logs_hold_promised_reads {settings : Settings} {r : Runtime} (new : Runtime.new? settings = .ok r)
    (m : Memory) (actions : List (Action α ε)) {owner : OwnerId} {w : Worker}
    (here : ((Chronicle.start r m).run actions).system.worker? owner = some w) (active : w.context.phase = .active)
    (clear : ¬ Pending.isAbort w.pending)
    (whole : (((Chronicle.start r m).run actions).attempts owner).broken = false) :
    let accesses := (((Chronicle.start r m).run actions).attempts owner).accesses
    let stands := ReadEntry.Stands r.table.slotOf (Chronicle.Sighted (Chronicle.start r m) actions owner) accesses
    (w.context.mode.isElastic = false →
      List.Forall₂ stands w.context.reads.entries (loggedReads accesses) ∧ w.context.window.entries = []) ∧
    (w.context.mode.isElastic = true →
      ((∀ a ∈ accesses, a.isRead = true) →
        w.context.reads.entries = [] ∧
          List.Forall₂ stands w.context.window.entries (latest settings.window (readings accesses))) ∧
      ((∃ a ∈ accesses, a.isRead = false) →
        w.context.window.entries = [] ∧
          List.Forall₂ stands w.context.reads.entries (watchedReads settings.window accesses))) := by
  intro accesses stands
  have promised := (Chronicle.accounts_run new m actions here).logs active clear whole
  rw [(Runtime.of_new? new).1] at promised
  refine ⟨fun regular => ?_, fun elastic => ⟨fun reads => ?_, fun written => ?_⟩⟩
  · obtain ⟨empty, logged⟩ := promised.slow (by rw [Context.isFast, regular, Bool.false_and])
    rw [regular] at logged
    exact ⟨logged, empty⟩
  · cases fast : w.context.isFast with
    | true => exact promised.fast fast
    | false =>
      obtain ⟨a, member, write⟩ := promised.written elastic fast
      cases write.symm.trans (reads a member)
  · cases fast : w.context.isFast with
    | true =>
      obtain ⟨a, member, write⟩ := written
      cases write.symm.trans (promised.unwritten fast a member)
    | false =>
      obtain ⟨empty, logged⟩ := promised.slow fast
      rw [elastic] at logged
      exact ⟨empty, logged⟩

/-- An elastic context reads two fields, one of them twice, which leaves its first read out of the window of two, and
    another context commits to that field meanwhile.  The first write moves the window to the read log, and the other
    field, which is read again at its new stamp, follows. -/
theorem logs_hold_promised_reads_of_two :
    let actions : List (Action Unit Unit) :=
      [.announce, .announce, .register ⟨1⟩, .register ⟨2⟩, .act ⟨1⟩ (.call (.start 0 .elastic)),
       .act ⟨1⟩ (.call (.read ⟨16, 1⟩ .u64)), .act ⟨2⟩ (.call (.start 0 .regular)),
       .act ⟨2⟩ (.call (.write ⟨16, 1⟩ (.u64 8))), .act ⟨2⟩ (.call .commit),
       .act ⟨1⟩ (.call (.read ⟨16, 0⟩ .u64)), .act ⟨1⟩ (.call (.read ⟨16, 0⟩ .u64)),
       .act ⟨1⟩ (.call (.write ⟨16, 0⟩ (.u64 7))), .act ⟨1⟩ (.call (.read ⟨16, 0⟩ .u64)),
       .act ⟨1⟩ (.call (.read ⟨16, 1⟩ .u64)), .act ⟨1⟩ .resume]
    let t := (Chronicle.start smallRuntime pair).run actions
    (t.attempts ⟨1⟩).accesses.length = 6 ∧ ∃ w ∈ t.system.worker? ⟨1⟩, w.context.window.entries = [] ∧
      w.context.reads.entries.map (·.observed) = [0, 0, 1] ∧
      List.Forall₂ (ReadEntry.Stands smallRuntime.table.slotOf
          (Chronicle.Sighted (Chronicle.start smallRuntime pair) actions ⟨1⟩) (t.attempts ⟨1⟩).accesses)
        w.context.reads.entries (watchedReads 2 (t.attempts ⟨1⟩).accesses) := by
  intro actions t
  have found : ∃ w ∈ t.system.worker? ⟨1⟩, w.context.phase = .active ∧ w.pending = none ∧
      (t.attempts ⟨1⟩).broken = false ∧ w.context.mode.isElastic = true ∧
      w.context.reads.entries.map (·.observed) = [0, 0, 1] := by decide +kernel
  obtain ⟨w, here, active, free, whole, elastic, observed⟩ := found
  have clear : ¬ Pending.isAbort w.pending := by
    rw [free]
    exact id
  obtain ⟨empty, logged⟩ := ((logs_hold_promised_reads smallRuntime_new pair actions here active clear whole).2
    elastic).2 (by decide +kernel)
  exact ⟨by decide +kernel, w, here, empty, observed, logged⟩

end TransactionalMemory
