import TransactionalMemory.Proofs.Grounds

/-! # What a context remembers of its reads

Whatever a worker makes of a segment for its blocks and its client, it stands at an event only if the segment
does, or if a block gives up (`Worker.Relays`).  So a step either begins an attempt, and forgets all reads, or it is
candid about them (`Worker.course_step`).

Along a run, what a context remembers stands for reads of the attempt in progress (`Chronicle.Tracks`): an entry of
a log has the version that the slot of its field had when the read was made, within the bound of the snapshot.
The steps of others make no difference to that, as a read does not change any more, and the commits of others come
later than all reads so far (`Chronicle.Attentive.beside`).
-/

namespace TransactionalMemory

variable {α ε : Type}

/-- Whether a segment has not come to stand at an event. -/
def Progress.isOver : Progress → Bool
  | standing .. => false
  | _ => true

theorem Progress.ne_standing {a : Progress} (ended : a.isOver = true) {e : Event} {rest : Pending} :
    a ≠ .standing e rest := by
  rintro rfl
  cases ended

namespace Worker

variable {w : Worker} {r : Runtime} {action : WorkerAction α ε} {out : Response α ε × Runtime × Worker}
  {p : Progress × Scope} {s : Scope} {a : Progress}

/-- The field that a step accesses. -/
def target? (w : Worker) : WorkerAction α ε → Option Location
  | .call request => request.location?
  | .resume => w.pending.bind Pending.location?
  | _ => none

/-! ## Standing where a segment stands -/

/-- What a worker makes of a segment: it stands at an event if the segment does, or if a block gives up, and it
    tells of no fault but the one of the segment. -/
structure Relays (p : Progress × Scope) (out : Response α ε × Runtime × Worker) : Prop where
  landing : landing out = p.2
  pending : ∀ rest, out.2.2.pending = some rest → rest.isGiveUp = true ∨ ∃ e, p.1 = .standing e rest
  told : ∀ e, out.1 = .standing e → e.isGaveUp = true ∨ ∃ rest, p.1 = .standing e rest
  faults : ∀ f, out.1 = .faulted f → p.1 = .faulted f
  stands : ∀ e rest, p.1 = .standing e rest → out.2.2.pending = some rest

namespace Relays

section

variable (ended : a.isOver = true)

include ended

theorem settle (w : Worker) {response : Response α ε} (running : ∀ e, response ≠ .standing e)
    (faults : ∀ f, response = .faulted f → a = .faulted f) : Relays (a, s) (w.settle response s) :=
  ⟨rfl, nofun, fun _ stands => absurd stands (running _), faults,
    fun _ _ stands => absurd stands (Progress.ne_standing ended)⟩

theorem close (w : Worker) {response : Response α ε} (running : ∀ e, response ≠ .standing e)
    (faults : ∀ f, response = .faulted f → a = .faulted f) : Relays (a, s) (w.close response s) :=
  .settle ended { w with blocks := w.blocks.tail } running faults

omit ended in
theorem closeFault (w : Worker) (f : Fault) :
    Relays (.faulted f, s) (w.close (.faulted f : Response α ε) s) := by
  refine .close rfl w nofun ?_
  rintro g ⟨⟩
  rfl

theorem giveUp (w : Worker) (b : Block) (reason : GiveUpReason) (c : Conflict) :
    Relays (a, s) (w.giveUp (α := α) (ε := ε) b reason c s) := by
  refine ⟨rfl, ?_, ?_, nofun, fun _ _ stands => absurd stands (Progress.ne_standing ended)⟩
  · rintro rest ⟨⟩
    exact Or.inl rfl
  · rintro e ⟨⟩
    exact Or.inl rfl

theorem afterConflict (w : Worker) (c : Conflict) :
    Relays (a, s) (w.afterConflict (α := α) (ε := ε) c s) := by
  unfold Worker.afterConflict
  split
  · exact .settle ended w nofun nofun
  · split
    · exact .giveUp ended ..
    · exact .settle ended _ nofun nofun

end

theorem advance (w : Worker) (ofBlock : Bool) (p : Progress × Scope) :
    Relays p (w.advance (α := α) (ε := ε) ofBlock p) := by
  obtain ⟨a, s⟩ := p
  cases a with
  | answered a => exact .settle rfl w nofun nofun
  | faulted f =>
    cases ofBlock with
    | false =>
      refine .settle rfl w nofun ?_
      rintro g ⟨⟩
      rfl
    | true => exact .closeFault w f
  | standing e rest =>
    refine ⟨rfl, ?_, ?_, nofun, ?_⟩
    · rintro rest ⟨⟩
      exact Or.inr ⟨e, rfl⟩
    · rintro e ⟨⟩
      exact Or.inr ⟨rest, rfl⟩
    · rintro e rest ⟨⟩
      rfl
  | commitLost => exact .afterConflict rfl w _

theorem resume (w : Worker) (rest : Pending) (r : Runtime) :
    Relays ((w.scope r).resume rest) (w.resume (α := α) (ε := ε) rest r) := by
  unfold Worker.resume
  split
  · next resumed =>
    rw [resumed]
    exact .close rfl w nofun nofun
  · exact .advance ..

theorem leaveBy (w : Worker) (result : BlockResult α ε) (r : Runtime) :
    Relays ((w.scope r).commit .block) (w.leaveBy result r) := by
  unfold Worker.leaveBy
  split
  · next committed =>
    rw [committed]
    exact .close rfl w nofun nofun
  · next committed =>
    rw [committed]
    exact .afterConflict rfl w _
  · exact .advance ..

end Relays

/-! ## Candid steps -/

/-- What a step makes of the two logs of reads and of the bound, if it does not begin an attempt. -/
structure Watchful (w : Worker) (r : Runtime) (out : Response α ε × Runtime × Worker) : Prop where
  logged : ∀ e ∈ out.2.2.context.reads.entries, e ∈ w.context.reads.entries ∨
    e.Current r.table w.context.owner w.context.writes
  bound : out.2.2.context.upper = w.context.upper ∨ w.context.isFast = true ∨
    ∃ next, w.pending = some (.extend out.2.2.context.upper next)
  fast : out.2.2.context.phase = .active → out.2.2.context.isFast = true →
    w.context.isFast = true ∧ out.2.2.context.reads = w.context.reads
  slow : out.2.2.context.phase = .active → out.2.2.context.isFast = false →
    out.2.2.context.window.entries = [] ∨
      w.context.isFast = false ∧ out.2.2.context.window = w.context.window ∨ Pending.isAbort out.2.2.pending
  checked : ∀ candidate next, out.2.2.pending = some (.extend candidate next) → out.2.2 = w ∨
    out.2.2.context.reads = w.context.reads ∧
      ∀ e ∈ w.context.reads.entries, e.Current r.table w.context.owner w.context.writes

/-- A step that does not begin an attempt. -/
structure Candid (w : Worker) (r : Runtime) (action : WorkerAction α ε)
    (out : Response α ε × Runtime × Worker) : Prop where
  watchful : Watchful w r out
  plain : Seat.begins action out.1 = false
  active : out.2.2.context.phase = .active → w.context.phase = .active
  lower : out.2.2.context.lower = w.context.lower
  grows : w.context.upper ≤ out.2.2.context.upper
  past : out.2.2.context.upper ≤ r.clock.now
  remembers : ∀ e, out.2.2.context.Remembers e → w.context.Remembers e ∨
    ∃ l, (w.scope r).Finds l out.2.2.context.upper e ∧
      ∀ d : Seat, d.pending = w.pending → ∃ kind v, d.access? action out.1 = some (.read (d.reading l kind v))
  waits : ∀ candidate next, out.2.2.pending = some (.extend candidate next) → out.2.2 = w ∨
    candidate = r.clock.now ∧ (Worker.landing out).Rechecks next
  aborts : ∀ owner block c, out.1 = .standing (.abort owner block c) →
    w.context.phase = .active ∧ (w.scope r).Grounds (w.target? action) c ∨
      c = .invalidCommit ∧ ∃ site, w.pending = some (.failCommit site)
  fails : ∀ site, out.2.2.pending = some (.failCommit site) → out.2.2 = w ∨
    w.context.phase = .active ∧ (w.scope r).Grounds (w.target? action) .invalidCommit

theorem Watchful.of_segment {upper : Nat} (watchful : Scope.Watchful ⟨r, { w.context with upper }⟩ p)
    (relays : Relays p out)
    (moved : upper = w.context.upper ∨ ∃ next, w.pending = some (.extend upper next)) : Watchful w r out := by
  obtain ⟨response, r', w'⟩ := out
  obtain ⟨landed, pending, -, -, stands⟩ := relays
  obtain ⟨a, s⟩ := p
  cases landed
  refine ⟨watchful.logged, ?_, watchful.fast, fun active slow => ?_, fun candidate next waiting => Or.inr ?_⟩
  · rcases watchful.bound with still | fast
    · have still : w'.context.upper = upper := still
      exact moved.imp still.trans fun waited => Or.inr (still ▸ waited)
    · exact Or.inr (Or.inl fast)
  · rcases watchful.slow active slow with empty | same | ⟨e, c, site, standing⟩
    · exact Or.inl empty
    · exact Or.inr (Or.inl same)
    · refine Or.inr (Or.inr ?_)
      rw [show w'.pending = _ from stands _ _ standing]
      trivial
  · rcases pending _ waiting with gives | ⟨e, standing⟩
    · cases gives
    · obtain ⟨same, current⟩ := watchful.checked e candidate next standing
      exact ⟨congrArg (·.reads) same, current⟩

namespace Candid

/-- The bound that the segment goes on with is the one of the context, or the one that a call has stood before. -/
theorem of_segment {upper : Nat} {found : Option Location}
    (candid : Scope.Candid ⟨r, { w.context with upper }⟩ (w.target? action) found p)
    (relays : Relays p out)
    (moved : upper = w.context.upper ∨ ∃ next, w.pending = some (.extend upper next))
    (later : w.context.upper ≤ upper) (plain : Seat.begins action out.1 = false)
    (finds : ∀ v l, p.1 = .answered (.value v) → l ∈ found → ∀ d : Seat, d.pending = w.pending →
      ∃ kind, d.access? action out.1 = some (.read (d.reading l kind v))) : Candid w r action out := by
  have watchful := Watchful.of_segment candid.watchful relays moved
  obtain ⟨response, r', w'⟩ := out
  obtain ⟨landed, pending, told⟩ := relays
  obtain ⟨a, s⟩ := p
  cases landed
  refine ⟨watchful, plain, candid.active, candid.lower, later.trans candid.grows, candid.past, ?_, ?_, ?_, ?_⟩
  · intro e remembers
    rcases candid.remembers e remembers with before | ⟨⟨v, answered⟩, l, member, found⟩
    · exact Or.inl before
    · refine Or.inr ⟨l, { found with }, fun d same => ?_⟩
      obtain ⟨kind, access⟩ := finds v l answered member d same
      exact ⟨kind, v, access⟩
  · intro candidate next waiting
    rcases pending _ waiting with gives | ⟨e, stands⟩
    · cases gives
    · exact Or.inr (candid.waits e candidate next stands)
  · intro owner block c stands
    rcases told _ stands with gives | ⟨rest, stands⟩
    · cases gives
    · obtain ⟨active, grounds⟩ := candid.aborts owner block c rest stands
      exact Or.inl ⟨active, Scope.Grounds.of_upper later grounds⟩
  · intro site waiting
    rcases pending _ waiting with gives | ⟨e, stands⟩
    · cases gives
    · obtain ⟨active, grounds⟩ := candid.fails e site stands
      exact Or.inr ⟨active, Scope.Grounds.of_upper later grounds⟩

theorem refuse (past : w.context.upper ≤ r.clock.now) (why : Refusal) :
    Candid w r action (w.refuse why r) where
  watchful := ⟨fun _ => Or.inl, Or.inl rfl, fun _ fast => ⟨fast, rfl⟩, fun _ slow => Or.inr (Or.inl ⟨slow, rfl⟩),
    fun _ _ _ => Or.inl rfl⟩
  plain := Seat.begins_refused action why
  active := id
  lower := rfl
  grows := Nat.le_refl _
  past := past
  remembers _ := Or.inl
  waits _ _ _ := Or.inl rfl
  aborts _ _ _ := nofun
  fails _ _ := Or.inl rfl

theorem of_fieldless (candid : Scope.Candid (w.scope r) (w.target? action) none p) (relays : Relays p out)
    (plain : Seat.begins action out.1 = false) : Candid w r action out :=
  of_segment candid relays (Or.inl rfl) (Nat.le_refl _) plain fun _ _ _ member => by cases member

section

variable (past : w.context.upper ≤ r.clock.now)

include past

theorem call (h : (w.scope r).Holding)
    (inside : w.context.phase = .active → ∀ e, w.context.Remembers e → e.slot < r.table.size)
    {request : Request} (plain : ∀ block mode, request ≠ .start block mode) :
    Candid (α := α) (ε := ε) w r (.call request) (w.advance false ((w.scope r).perform request)) := by
  have begun : Seat.begins (.call request) (w.advance (α := α) (ε := ε) false
      ((w.scope r).perform request)).1 = false := by
    refine Seat.begins_of_plain ?_ (attempt_ne_advance w false _)
    rintro block mode ⟨⟩
    exact plain block mode rfl
  have candid : Scope.Candid (w.scope r) (w.target? (.call request : WorkerAction α ε)) request.reads?
      ((w.scope r).perform request) := .perform past h inside plain
  refine of_segment candid (.advance ..) (Or.inl rfl) (Nat.le_refl _) begun ?_
  intro v l answered member d _
  rw [show (w.scope r).perform request = (.answered (.value v), ((w.scope r).perform request).2) from
    Prod.ext answered rfl]
  cases request with
  | load k kind =>
    cases member
    exact ⟨kind, rfl⟩
  | read k kind =>
    cases member
    exact ⟨kind, rfl⟩
  | _ => cases member

theorem resume {rest : Pending} (waiting : w.pending = some rest) (waits : (w.scope r).Awaits rest) :
    Candid (α := α) (ε := ε) w r .resume (w.resume rest r) := by
  have begun : Seat.begins (.resume : WorkerAction α ε) (w.resume rest r).1 = false :=
    Seat.begins_of_plain nofun (attempt_ne_resume w rest r)
  have relays := Relays.resume (α := α) (ε := ε) w rest r
  by_cases failing : ∃ site, rest = .failCommit site
  · obtain ⟨site, rfl⟩ := failing
    -- The commit has failed before, and its abort is all that is left to do.
    have watchful : Scope.Watchful (w.scope r) ((w.scope r).abort .invalidCommit site) :=
      .of_abort ⟨rfl, rfl, rfl, rfl⟩ id _ _
    refine ⟨.of_segment watchful relays (Or.inl rfl), begun, id, rfl, Nat.le_refl _, past, fun _ => Or.inl, ?_, ?_, ?_⟩
    · rintro candidate next ⟨⟩
    · rintro owner block c ⟨⟩
      exact Or.inr ⟨rfl, site, waiting⟩
    · rintro site' ⟨⟩
  · have target : w.target? (.resume : WorkerAction α ε) = rest.location? := by rw [target?, waiting]; rfl
    have candid := Scope.Candid.resume past waits fun site same => failing ⟨site, same⟩
    have moved : rest.bound w.context.upper = w.context.upper ∨
        ∃ next, w.pending = some (.extend (rest.bound w.context.upper) next) := by
      cases rest with
      | extend candidate next => exact Or.inr ⟨next, waiting⟩
      | _ => exact Or.inl rfl
    have later : w.context.upper ≤ rest.bound w.context.upper := by
      cases rest with
      | extend candidate next => exact (waits candidate next rfl).1
      | _ => exact Nat.le_refl _
    refine of_segment (target ▸ candid) relays moved later begun ?_
    intro v l answered member d same
    rw [target] at member
    cases rest with
    | extend candidate next =>
      rw [resume_eq_advance rfl, show (w.scope r).resume (.extend candidate next) =
        (.answered (.value v), ((w.scope r).resume (.extend candidate next)).2) from Prod.ext answered rfl]
      cases next with
      | answer => cases member
      | loadHeld k kind =>
        cases member
        exact ⟨kind, by simp only [advance, settle, Seat.access?, same, waiting]⟩
      | recheck k kind slot stamp v' =>
        cases member
        exact ⟨kind, by simp only [advance, settle, Seat.access?, same, waiting]⟩
    | _ => cases member

theorem leaveOnConflict (c : Conflict) :
    Candid (α := α) (ε := ε) w r (.leave (.conflict c)) (w.leaveOnConflict c r) := by
  unfold Worker.leaveOnConflict
  dsimp only
  split
  · next f _ => exact of_fieldless (.fault past f) (.closeFault w f) rfl
  · next tally counted =>
    let t : Scope := { w.scope r with context := { (w.scope r).context with tally } }
    have rolls : ∀ a : Progress, (∀ e rest, a ≠ .standing e rest) →
        Scope.Candid (w.scope r) none none (a, t.rollback.2) :=
      fun _ => .rollback (s := w.scope r) (t := t) past ⟨rfl, rfl, rfl, rfl⟩ rfl rfl
    dsimp only [t] at rolls
    split
    · next f s rolled =>
      rw [rolled] at rolls
      exact of_fieldless (rolls (.faulted f) fun _ _ => Progress.noConfusion) (.closeFault w f) rfl
    · next s rolled =>
      rw [rolled] at rolls
      have relays : Relays (.commitLost, s) (w.afterConflict (α := α) (ε := ε) c s) :=
        .afterConflict rfl w c
      exact of_fieldless (rolls .commitLost fun _ _ => Progress.noConfusion) relays
        (Seat.begins_of_plain nofun (afterConflict_ne rfl))

theorem unwind : Candid (α := α) (ε := ε) w r .unwind (w.unwind r) := by
  have rolls : ∀ a : Progress, (∀ e rest, a ≠ .standing e rest) →
      Scope.Candid (w.scope r) none none (a, (w.scope r).rollback.2) :=
    fun _ => .rollback past ⟨rfl, rfl, rfl, rfl⟩ rfl rfl
  unfold Worker.unwind
  split
  · next f s rolled =>
    rw [rolled] at rolls
    exact of_fieldless (rolls (.faulted f) fun _ _ => Progress.noConfusion) (.closeFault w f) rfl
  · next s rolled =>
    rw [rolled] at rolls
    exact of_fieldless (rolls (.answered .done) fun _ _ => Progress.noConfusion)
      (.close rfl w nofun nofun) rfl

end

end Candid

/-- What a step makes of the reads that the attempt remembers: it forgets them with the attempt, or it is candid
    about them. -/
inductive Course (w : Worker) (r : Runtime) (action : WorkerAction α ε)
    (out : Response α ε × Runtime × Worker) : Prop where
  | begins (renewed : Scope.Renewed (w.scope r) (landing out)) (free : out.2.2.pending = none)
      (told : ∀ e, out.1 ≠ .standing e)
  | goes (candid : Candid w r action out)

theorem course_step (h : (w.scope r).Holding) (past : w.context.upper ≤ r.clock.now)
    (inside : w.context.phase = .active → ∀ e, w.context.Remembers e → e.slot < r.table.size)
    (waits : ∀ rest ∈ w.pending, (w.scope r).Awaits rest) (action : WorkerAction α ε) :
    Course w r action (w.step r action) := by
  have dispatch := dispatch_step w r action
  generalize w.step r action = out at dispatch ⊢
  cases dispatch with
  | refuse => exact .goes (.refuse past _)
  | call _ request =>
    cases request with
    | start block mode =>
      obtain ⟨s, started, renewed⟩ := h.renews block mode
      rw [Scope.perform, started]
      exact .begins renewed rfl (by rintro _ ⟨⟩)
    | _ => exact .goes (.call past h inside fun _ _ => Request.noConfusion)
  | resume rest waiting => exact .goes (.resume past waiting (waits rest waiting))
  | enter _ block mode =>
    obtain ⟨s, started, renewed⟩ := h.renews block mode
    unfold enter
    rw [started]
    exact .begins renewed rfl (by rintro _ ⟨⟩)
  | leave _ result =>
    cases result with
    | value a =>
      exact .goes (.of_fieldless (.commit past .block) (.leaveBy w _ r)
        (Seat.begins_of_plain (by rintro _ _ ⟨⟩) (attempt_ne_leaveBy w _ r)))
    | failure e =>
      exact .goes (.of_fieldless (.commit past .block) (.leaveBy w _ r)
        (Seat.begins_of_plain (by rintro _ _ ⟨⟩) (attempt_ne_leaveBy w _ r)))
    | conflict c => exact .goes (.leaveOnConflict past c)
  | decide _ b c _ control =>
    cases control with
    | stop =>
      have still : Scope.Candid (w.scope r) none none (.answered .done, w.scope r) :=
        .of_answer past fun _ _ => Progress.noConfusion
      exact .goes (.of_fieldless still (.giveUp rfl ..) rfl)
    | retry =>
      obtain ⟨s, started, renewed⟩ := h.renews b.id b.mode
      simp only [decide, scope] at started ⊢
      rw [started]
      exact .begins renewed rfl (by rintro _ ⟨⟩)
  | unwind => exact .goes (.unwind past)

end Worker

namespace Chronicle

variable {t t' : Chronicle} {owner : OwnerId} {w : Worker} {e : ReadEntry} {q : Reading}

/-! ## Reads along a run -/

/-- A read of the attempt in progress is the one that an entry of a log of reads stands for: it is a read of the
    field from memory, and when it was made, the version of the slot was the one that the entry has. -/
structure Records (t : Chronicle) (owner : OwnerId) (e : ReadEntry) (q : Reading) : Prop where
  made : .read q ∈ (t.attempts owner).accesses
  source : q.source ≠ .buffered
  location : q.location = e.location
  slot : e.slot = t.system.runtime.table.slotOf e.location
  version : version (t.commits.filter (·.stamp ≤ q.time)) e.slot = e.observed

/-- An entry is within the bound of the snapshot, and stands for a read that was made since the attempt began. -/
structure Tracks (t : Chronicle) (owner : OwnerId) (w : Worker) (e : ReadEntry) : Prop where
  observed : e.observed ≤ w.context.upper
  read : ∃ q, t.Records owner e q ∧ w.context.lower ≤ q.time ∧ q.time ≤ t.system.runtime.clock.now

/-- What is known of a context: the bounds of its snapshot are values of the clock, its owner has committed
    nothing since the attempt began, and what it remembers of reads stands for reads of the attempt. -/
structure Attentive (t : Chronicle) (owner : OwnerId) (w : Worker) : Prop where
  lower : w.context.lower ≤ t.system.runtime.clock.now
  upper : w.context.upper ≤ t.system.runtime.clock.now
  awaits : ∀ rest ∈ w.pending, (w.scope t.system.runtime).Awaits rest
  own : w.context.phase = .active → ∀ x ∈ t.commits, x.context.owner = owner → x.stamp ≤ w.context.lower
  tracks : w.context.phase = .active → ∀ e, w.context.Remembers e → t.Tracks owner w e

/-- The slots of the reads that are remembered are slots of the table. -/
theorem Attentive.inside (h : t.Attentive owner w) (active : w.context.phase = .active) :
    ∀ e, w.context.Remembers e → e.slot < t.system.runtime.table.size := by
  intro e remembers
  obtain ⟨q, records, -⟩ := (h.tracks active e remembers).read
  exact records.slot ▸ LockTable.slotOf_lt_size _ e.location

theorem Records.grown (records : t.Records owner e q) (grown : Grown t t')
    (accesses : ∃ more, (t'.attempts owner).accesses = (t.attempts owner).accesses ++ more)
    (past : q.time ≤ t.system.runtime.clock.now) : t'.Records owner e q := by
  obtain ⟨more, accesses⟩ := accesses
  obtain ⟨new, commits, later⟩ := grown.later
  refine ⟨?_, records.source, records.location, ?_, ?_⟩
  · rw [accesses]
    exact List.mem_append_left _ records.made
  · rw [LockTable.slotOf_congr grown.bits]
    exact records.slot
  · rw [commits, filter_append_of_later fun x member => past.trans_lt (later x member)]
    exact records.version

theorem Tracks.grown {w' : Worker} (tracks : t.Tracks owner w e) (grown : Grown t t')
    (accesses : ∃ more, (t'.attempts owner).accesses = (t.attempts owner).accesses ++ more)
    (lower : w'.context.lower = w.context.lower) (upper : w.context.upper ≤ w'.context.upper) :
    t'.Tracks owner w' e := by
  obtain ⟨q, records, since, past⟩ := tracks.read
  exact ⟨tracks.observed.trans upper, q, records.grown grown accesses past, lower.trans_le since,
    past.trans grown.clock⟩

theorem Awaits.grown {rest : Pending} (awaits : (w.scope t.system.runtime).Awaits rest) (grown : Grown t t') :
    (w.scope t'.system.runtime).Awaits rest := by
  intro candidate next same
  obtain ⟨grows, past, rechecks⟩ := awaits candidate next same
  refine ⟨grows, past.trans grown.clock, ?_⟩
  cases next with
  | recheck l kind slot stamp v =>
    exact ⟨rechecks.1, rechecks.2.trans (congrFun (LockTable.slotOf_congr grown.bits) l).symm⟩
  | _ => trivial

/-- A context does not notice what others do. -/
theorem Attentive.beside (h : t.Attentive owner w) (grown : Grown t t')
    (others : ∀ x ∈ t'.commits, x ∈ t.commits ∨ x.context.owner ≠ owner)
    (attempts : t'.attempts owner = t.attempts owner) : t'.Attentive owner w where
  lower := h.lower.trans grown.clock
  upper := h.upper.trans grown.clock
  awaits rest waiting := Awaits.grown (h.awaits rest waiting) grown
  own active x member own := by
    rcases others x member with before | other
    · exact h.own active x before own
    · exact absurd own other
  tracks active e remembers :=
    (h.tracks active e remembers).grown grown ⟨[], by rw [attempts, List.append_nil]⟩ rfl (Nat.le_refl _)

/-- A read that has just been made is recorded with the version that its slot carries. -/
theorem Tracks.of_finds {w' : Worker} (versioned : t.Versioned) (holding : (w.scope t.system.runtime).Holding)
    (grown : Grown t t') {l : Location} (found : (w.scope t.system.runtime).Finds l w'.context.upper e)
    (lower : w'.context.lower ≤ t.system.runtime.clock.now) {kind : Kind} {v : Value}
    (made : .read ((t.seat owner w).reading l kind v) ∈ (t'.attempts owner).accesses) :
    t'.Tracks owner w' e := by
  obtain ⟨new, commits, later⟩ := grown.later
  refine ⟨found.observed, _, ⟨made, ?_, found.location.symm, ?_, ?_⟩, lower, grown.clock⟩
  · refine Seat.source_of_unlogged (d := t.seat owner w) (holding.wellFormed.value?_of_not_held ?_)
    refine holding.stamp?_of_not_held fun held => ?_
    rw [← found.slot, found.word] at held
    cases held
  · rw [found.slot, found.location, LockTable.slotOf_congr grown.bits]
    rfl
  · have whole : t.commits.filter (·.stamp ≤ t.system.runtime.clock.now) = t.commits :=
      List.filter_eq_self.mpr fun x member => decide_eq_true (versioned.stamped x member)
    show version (t'.commits.filter (·.stamp ≤ t.system.runtime.clock.now)) e.slot = e.observed
    rw [commits, filter_append_of_later later, whole]
    exact versioned.free _ _ found.word

/-- A step of the context itself. -/
theorem Attentive.act (h : t.Attentive owner w) (orderly : t.system.Orderly) (versioned : t.Versioned)
    (small : t.system.runtime.clock.now < lockBit - 1) (here : t.system.worker? owner = some w)
    (action : WorkerAction α ε) :
    (t.step (.act owner action)).Attentive owner (w.step t.system.runtime action).2.2 := by
  have grown := grown_step orderly small (.act owner action : Action α ε)
  have runtime := runtime_step_act here action
  have attempts : (t.step (.act owner action)).attempts owner =
      (t.seat owner w).attemptAfter action (w.step t.system.runtime action).1 := by
    rw [step_act here]
    exact if_pos rfl
  have commits : (w.step t.system.runtime action).2.2.context.phase = .active →
      (t.step (.act owner action)).commits = t.commits := by
    intro active
    rcases commits_step_act here action with ⟨-, commits, -⟩ | ⟨⟨-, committed⟩, -⟩
    · exact commits
    · cases active.symm.trans committed
  cases w.course_step (orderly.holding owner w here) h.upper h.inside h.awaits action with
  | begins renewed free =>
    -- The snapshot begins at the clock, after all commits so far, and nothing has been read yet.
    refine ⟨renewed.lower.trans_le grown.clock, renewed.upper.trans_le grown.clock, ?_, ?_, ?_⟩
    · intro rest waiting
      rw [free] at waiting
      cases waiting
    · intro active x member _
      rw [commits active] at member
      exact (versioned.stamped x member).trans renewed.lower.ge
    · intro _ e remembers
      exact absurd remembers (renewed.forgets e)
  | goes candid =>
    refine ⟨?_, candid.past.trans grown.clock, ?_, ?_, ?_⟩
    · rw [candid.lower]
      exact h.lower.trans grown.clock
    · intro rest waiting candidate next same
      subst same
      rcases candid.waits candidate next waiting with unchanged | ⟨now, rechecks⟩
      · rw [unchanged] at waiting ⊢
        exact Awaits.grown (h.awaits _ waiting) grown candidate next rfl
      · refine ⟨?_, now.trans_le grown.clock, ?_⟩
        · rw [now]
          exact candid.past
        · rw [runtime]
          exact rechecks
    · intro active x member own
      rw [commits active] at member
      rw [candid.lower]
      exact h.own (candid.active active) x member own
    · -- What the context remembers now it remembered before, or it is the read that the step has answered.
      intro active e remembers
      rw [Seat.attemptAfter, if_neg (Bool.eq_false_iff.mp candid.plain)] at attempts
      rcases candid.remembers e remembers with before | ⟨l, found, access⟩
      · exact (h.tracks (candid.active active) e before).grown grown ⟨_, congrArg Attempt.accesses attempts⟩
          candid.lower candid.grows
      · obtain ⟨kind, v, access⟩ := access (t.seat owner w) rfl
        have made : .read ((t.seat owner w).reading l kind v) ∈
            ((t.step (.act owner action)).attempts owner).accesses := by
          rw [attempts, access]
          exact List.mem_append_right _ (List.mem_singleton_self _)
        exact .of_finds versioned (orderly.holding owner w here) grown found (candid.lower.trans_le h.lower) made

theorem attempts_step_of_not_act {a : Action α ε} (other : ∀ action, a ≠ .act owner action) :
    (t.step a).attempts owner = t.attempts owner := by
  by_cases own : a.owner? = some owner
  · cases a with
    | announce => cases own
    | register o => rfl
    | drop o => rfl
    | act o action =>
      cases own
      exact absurd rfl (other action)
  · exact attempts_step_of_ne own

/-- What a step makes of a property of all workers: it is kept by the steps of the worker itself and of others, and
    holds of new workers. -/
theorem forall_worker_step (orderly : t.system.Orderly) {a : Action α ε} {P P' : OwnerId → Worker → Prop}
    (before : ∀ o w, t.system.worker? o = some w → P o w)
    (act : ∀ o w action, a = .act o action → t.system.worker? o = some w → P o w →
      P' o (w.step t.system.runtime action).2.2)
    (beside : ∀ o w, (∀ action, a ≠ .act o action) → t.system.worker? o = some w → P o w → P' o w)
    (fresh : ∀ o window, P' o { context := { owner := o, window } }) :
    ∀ o w, (t.step a).system.worker? o = some w → P' o w := by
  intro o w there
  by_cases own : ∃ action, a = .act o action
  · obtain ⟨action, rfl⟩ := own
    cases here : t.system.worker? o with
    | none =>
      rw [system_step, System.step, System.act, here] at there
      cases here.symm.trans there
    | some w₀ =>
      rw [worker?_step_act here] at there
      cases there
      exact act o w₀ action rfl here (before o w₀ here)
  · have other : ∀ action, a ≠ .act o action := fun action same => own ⟨action, same⟩
    rw [system_step] at there
    rcases orderly.worker_cases there with here | ⟨action, w₀, same, -⟩ | ⟨-, window, rfl⟩
    · exact beside o w other here (before o w here)
    · exact absurd same (other action)
    · exact fresh o window

/-- Every free slot carries its version, and every context knows what its reads were. -/
structure Mindful (t : Chronicle) : Prop extends Versioned t where
  attentive : ∀ o w, t.system.worker? o = some w → t.Attentive o w

theorem Mindful.step (mindful : t.Mindful) (orderly : t.system.Orderly) {a : Action α ε} {new : Bool}
    (turn : System.Turn t.system new (t.step a).system) (small : t.system.runtime.clock.now < lockBit - 1) :
    (t.step a).Mindful where
  toVersioned := mindful.toVersioned.step orderly turn small
  attentive := by
    have grown := grown_step orderly small a
    refine forall_worker_step orderly mindful.attentive ?_ ?_ ?_
    · rintro o w action rfl here attentive
      exact attentive.act orderly mindful.toVersioned small here action
    · intro o w other _ attentive
      refine attentive.beside grown (fun x member => ?_) (attempts_step_of_not_act other)
      rcases adds_or_restores orderly a with ⟨owner, action, y, rfl, adds⟩ | restores
      · rw [adds.commits] at member
        rcases List.mem_append.mp member with before | last
        · exact Or.inl before
        · refine Or.inr fun same => other action ?_
          rw [List.mem_singleton.mp last, adds.owner] at same
          rw [same]
      · exact Or.inl (restores.commits ▸ member)
    · exact fun o window => ⟨Nat.zero_le _, Nat.zero_le _, nofun, nofun, nofun⟩

theorem mindful_start {settings : Settings} {r : Runtime} (new : Runtime.new? settings = .ok r) (m : Memory) :
    (start r m).Mindful where
  toVersioned := versioned_start new m
  attentive o w there := by simp [start, System.worker?] at there

theorem mindful_run {settings : Settings} {r : Runtime} (new : Runtime.new? settings = .ok r) (m : Memory)
    {actions : List (Action α ε)} (owners : actions.countP Action.isAnnounce < lockBit)
    (clock : ∀ n ≤ actions.length,
      ((start r m).run (actions.take n)).system.runtime.clock.now < lockBit - 1) :
    ((start r m).run actions).Mindful :=
  induct_run new m owners clock (mindful_start new m) fun _ _ _ orderly turn small mindful =>
    mindful.step orderly turn small

end Chronicle

end TransactionalMemory
