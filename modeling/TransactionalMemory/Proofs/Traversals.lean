import TransactionalMemory.Proofs.Programs

/-! # Elastic traversals get at least as far

A traversal is an attempt that only reads, with steps of others between its reads.  It can be run with all
its reads under watch, or as an elastic attempt, against the same steps of others.

An attempt that has written nothing leaves no mark on what all share, so the others see no difference between
the two runs (`System.Beside.step`).  The two contexts differ in their logs of reads alone, and the window of
the elastic one has only reads that the other one has logged: so whenever the longer log passes a check, the
window does, and both bounds move to the same value of the clock (`Scope.KeepsUp`).
-/

namespace TransactionalMemory

variable {α ε : Type}

/-! ## Traversals -/

/-- An attempt that only reads, with what others do between its steps.  What comes next may depend on the
    values that it has read. -/
inductive Traversal (α ε : Type) where
  | done
  | beside (a : Action α ε) (rest : Traversal α ε)
  | read (probes : Bool) (l : Location) (kind : Kind) (next : Value → Traversal α ε)

/-- What a traversal has come to: the values that it has read, each with the bound of the snapshot after it,
    and the response that ended it. -/
structure Sighting (α ε : Type) where
  answers : List (Value × Option Nat) := []
  last : Response α ε

def Response.isAbort : Response α ε → Bool
  | standing (.abort ..) => true
  | _ => false

namespace System

/-- The bound of an owner's snapshot. -/
def upper? (s : System) (owner : OwnerId) : Option Nat := (s.worker? owner).map (·.context.upper)

/-- A call that goes on at once if it stands still to move the bound of the snapshot. -/
def through (s : System) (owner : OwnerId) (request : Request) : Response α ε × System :=
  match s.step (.act owner (.call request) : Action α ε) with
  | (.standing (.extended ..), s) => s.step (.act owner .resume)
  | out => out

end System

namespace Traversal

/-- The steps of a traversal, up to the first read that is not answered, or to the commit. -/
def run (owner : OwnerId) : Traversal α ε → System → Sighting α ε
  | done, s => { last := (s.step (.act owner (.call .commit))).1 }
  | beside a rest, s => rest.run owner (s.step a).2
  | read probes l kind next, s =>
    match s.through owner (if probes then .read l kind else .load l kind) with
    | (.replied (.value v), s) =>
      let seen := (next v).run owner s
      { seen with answers := (v, s.upper? owner) :: seen.answers }
    | (other, _) => { last := other }

/-- A traversal as an attempt, from the start on. -/
def attempt (p : Traversal α ε) (owner : OwnerId) (block : Nat) (mode : Mode) (s : System) : Sighting α ε :=
  match s.step (.act owner (.call (.start block mode))) with
  | (.replied .done, s) => p.run owner s
  | (other, _) => { last := other }

/-- A read that is not answered with a value ends the traversal. -/
theorem run_read_of_stopped {owner : OwnerId} {probes : Bool} {l : Location} {kind : Kind}
    {next : Value → Traversal α ε} {s : System}
    (stopped : ∀ v, (s.through (α := α) (ε := ε) owner (if probes then .read l kind else .load l kind)).1 ≠
      .replied (.value v)) :
    (read probes l kind next).run owner s =
      { last := (s.through owner (if probes then .read l kind else .load l kind)).1 } := by
  simp only [run]

/-- What is done between the reads is done by others. -/
def LeavesAlone (owner : OwnerId) : Traversal α ε → Prop
  | done => True
  | beside a rest => a.owner? ≠ some owner ∧ rest.LeavesAlone owner
  | read _ _ _ next => ∀ v, (next v).LeavesAlone owner

/-- No more contexts are announced, whatever is read. -/
def AnnouncesAtMost : Nat → Traversal α ε → Prop
  | _, done => True
  | n, beside a rest => a.isAnnounce.toNat ≤ n ∧ rest.AnnouncesAtMost (n - a.isAnnounce.toNat)
  | n, read _ _ _ next => ∀ v, (next v).AnnouncesAtMost n

end Traversal

/-! ## Two contexts that read the same -/

namespace Context

/-- The context as an elastic one, with a window of reads in the place of its read log. -/
def relaxed (c : Context) (window : Window) : Context :=
  { c with mode := .elastic, reads := {}, window }

/-- The context is in the middle of an attempt that has only read, and has logged all its reads. -/
structure Traversing (c : Context) (t : LockTable) : Prop where
  active : c.phase = .active
  strict : c.mode.isElastic = false
  nothing : c.writes = {}
  placed : ∀ e ∈ c.reads.entries, e.slot < t.size
  counted : c.tally.elastic ≤ c.tally.commits

namespace Traversing

variable {c : Context} {t : LockTable} {window : Window}

theorem isFast_eq_false (h : c.Traversing t) : c.isFast = false := by
  rw [isFast, h.strict, Bool.false_and]

theorem isFast_relaxed (h : c.Traversing t) (window : Window) : (c.relaxed window).isFast = true := by
  rw [isFast, relaxed, h.nothing]
  rfl

/-- The check of the read log meets no fault, and if it is passed, the reads of the window pass it too. -/
theorem validate_cases (h : c.Traversing t) (watched : ∀ e ∈ window.entries, e ∈ c.reads.entries) :
    c.reads.validate t c.owner c.writes = .ok false ∨
    c.reads.validate t c.owner c.writes = .ok true ∧
      (c.relaxed window).window.validate t c.owner c.writes = .ok true := by
  obtain ⟨current, checked⟩ := allCurrent_ok c.owner c.writes h.placed
  cases current with
  | false => exact Or.inl checked
  | true =>
    refine Or.inr ⟨checked, allCurrent_of_current fun e member => ?_⟩
    have logged := watched e member
    exact ⟨h.placed e logged, current_of_allCurrent checked e logged⟩

/-- One more read is logged. -/
theorem push (h : c.Traversing t) {e : ReadEntry} (inside : e.slot < t.size) (upper : Nat) :
    Traversing { c with upper, reads := c.reads.push e } t where
  active := h.active
  strict := h.strict
  nothing := h.nothing
  placed e' member := by
    rcases List.mem_append.mp member with before | last
    · exact h.placed e' before
    · rwa [List.mem_singleton.mp last]
  counted := h.counted

end Traversing

end Context

def Progress.isAbort : Progress → Bool
  | standing (.abort ..) _ => true
  | _ => false

def Progress.isAnswered : Progress → Bool
  | answered _ => true
  | _ => false

namespace Scope

/-- A segment with the one after it, if it stands still to move the bound of the snapshot. -/
def onward : Progress × Scope → Progress × Scope
  | (.standing (.extended ..) rest, s) => s.resume rest
  | p => p

variable {r : Runtime} {c : Context} {window : Window} {l : Location} {kind : Kind} {v : Value} {slot : Nat}

/-- What becomes of a read of a context, and of the same read of the elastic one: if the first is answered, the
    second is, and the two contexts go on to differ in their logs of reads alone. -/
inductive KeepsUp (r : Runtime) (p p' : Progress × Scope) : Prop where
  | aborts (told : p.1.isAbort = true)
  | faults (f : Fault) (strict : p.1 = .faulted f) (elastic : p'.1 = .faulted f)
  | answers (v : Value) (c : Context) (window : Window) (strict : p = (.answered (.value v), ⟨r, c⟩))
      (elastic : p' = (.answered (.value v), ⟨r, c.relaxed window⟩)) (traversing : c.Traversing r.table)
      (watched : ∀ e ∈ window.entries, e ∈ c.reads.entries)

theorem onward_finishRead (s : Scope) (stamp : Nat) :
    onward (s.finishRead l slot stamp v) = s.finishRead l slot stamp v := by
  unfold finishRead
  split <;> rfl

theorem keepsUp_finishRead (h : c.Traversing r.table) (watched : ∀ e ∈ window.entries, e ∈ c.reads.entries)
    (inside : slot < r.table.size) (upper stamp : Nat) :
    KeepsUp r (finishRead ⟨r, { c with upper }⟩ l slot stamp v)
      (finishRead ⟨r, { c.relaxed window with upper }⟩ l slot stamp v) := by
  by_cases recent : stamp ≤ upper
  · have strict : Context.logRead { c with upper } ⟨l, slot, stamp⟩ =
        { c with upper, reads := c.reads.push ⟨l, slot, stamp⟩ } :=
      if_neg (Bool.eq_false_iff.mp h.isFast_eq_false)
    have elastic : Context.logRead { c.relaxed window with upper } ⟨l, slot, stamp⟩ =
        Context.relaxed { c with upper, reads := c.reads.push ⟨l, slot, stamp⟩ }
          (window.push ⟨l, slot, stamp⟩) :=
      if_pos (h.isFast_relaxed window)
    refine .answers v _ (window.push ⟨l, slot, stamp⟩) ?_ ?_
      (h.push (e := ⟨l, slot, stamp⟩) inside upper) fun e member => ?_
    · rw [finishRead, if_pos recent, strict]
    · rw [finishRead, if_pos recent, elastic]
    · rcases Window.mem_push member with rfl | before
      · exact List.mem_append_right _ (List.mem_singleton_self _)
      · exact List.mem_append_left _ (watched e before)
  · exact .faults .boundBelowStamp (by rw [finishRead, if_neg recent]) (by rw [finishRead, if_neg recent])

theorem keepsUp_loadFree (h : c.Traversing r.table) (watched : ∀ e ∈ window.entries, e ∈ c.reads.entries)
    (inside : slot < r.table.size) :
    KeepsUp r (onward (loadFree ⟨r, c⟩ l kind slot)) (onward (loadFree ⟨r, c.relaxed window⟩ l kind slot)) := by
  simp only [loadFree_eq, LockTable.check_of_lt inside]
  cases word : r.table.word slot with
  | held holder =>
    by_cases own : holder = c.owner
    · simp only [Context.relaxed, own, ↓reduceIte]
      exact .faults _ rfl rfl
    · simp only [own, ↓reduceIte]
      exact .aborts rfl
  | free stamp =>
    cases r.memory.peek l kind with
    | error f => exact .faults f rfl rfl
    | ok v =>
      by_cases recent : stamp ≤ c.upper
      · have relaxed : stamp ≤ (c.relaxed window).upper := recent
        simp only [recent, relaxed, ↓reduceIte, onward_finishRead]
        exact keepsUp_finishRead h watched inside c.upper stamp
      · have relaxed : ¬ stamp ≤ (c.relaxed window).upper := recent
        simp only [recent, relaxed, ↓reduceIte, h.isFast_eq_false, h.isFast_relaxed window, Bool.false_eq_true,
          tryExtend, slide]
        rcases h.validate_cases watched with stale | ⟨current, passed⟩
        · simp only [stale]
          exact .aborts rfl
        · -- Nobody acts before the call goes on, so the slot is as it was.
          have unchanged : r.table.load slot = .ok (.free stamp) := by
            rw [LockTable.load_of_lt inside, word]
          have passed : (c.relaxed window).window.validate r.table (c.relaxed window).owner
              (c.relaxed window).writes = .ok true := passed
          simp only [current, passed, onward_finishRead]
          simp only [onward, resume, afterExtension_recheck, unchanged, ↓reduceIte]
          exact keepsUp_finishRead h watched inside r.clock.now stamp

theorem keepsUp_load (h : c.Traversing r.table) (watched : ∀ e ∈ window.entries, e ∈ c.reads.entries) :
    KeepsUp r (onward (load ⟨r, c⟩ l kind)) (onward (load ⟨r, c.relaxed window⟩ l kind)) := by
  obtain ⟨slot, here⟩ : ∃ slot, r.table.slotOf l = slot := ⟨_, rfl⟩
  have inside : slot < r.table.size := here ▸ LockTable.slotOf_lt_size _ l
  have strict : load ⟨r, c⟩ l kind = loadFree ⟨r, c⟩ l kind slot := by
    simp only [load, obstacle?, h.active, here, h.nothing]
    rfl
  have elastic : load ⟨r, c.relaxed window⟩ l kind = loadFree ⟨r, c.relaxed window⟩ l kind slot := by
    simp only [load, obstacle?, Context.relaxed, h.active, here, h.nothing]
    rfl
  rw [strict, elastic]
  exact keepsUp_loadFree h watched inside

theorem keepsUp_read (h : c.Traversing r.table) (watched : ∀ e ∈ window.entries, e ∈ c.reads.entries) :
    KeepsUp r (onward (read ⟨r, c⟩ l kind)) (onward (read ⟨r, c.relaxed window⟩ l kind)) := by
  have strict := read_of_active (s := ⟨r, c⟩) h.active l kind
  have elastic := read_of_active (s := ⟨r, c.relaxed window⟩) h.active l kind
  rw [strict, elastic]
  by_cases free : (r.table.word (r.table.slotOf l)).isFreeFor c.owner = true
  · have passed : KeepsUp r (onward (load ⟨r, c⟩ l kind)) (onward (load ⟨r, c.relaxed window⟩ l kind)) :=
      keepsUp_load h watched
    simp only [Context.relaxed, free, ↓reduceIte] at passed ⊢
    exact passed
  · exact .aborts (by simp only [free]; rfl)

end Scope

theorem Progress.isAbort_response {p : Progress} (told : p.isAbort = true) :
    (p.response : Response α ε).isAbort = true := by
  cases p with
  | standing e rest => cases e <;> first | rfl | cases told
  | _ => cases told

/-- What a worker makes of a segment that is not the end of a block's commit. -/
theorem Worker.advance_cases (w : Worker) (ofBlock : Bool) {p : Progress × Scope} (ends : p.1 ≠ .commitLost) :
    ∃ w₁, w.advance ofBlock p = ((p.1.response : Response α ε), p.2.runtime, w₁) ∧ w₁.context = p.2.context ∧
      (p.1.isAnswered = true → w₁.pending = none ∧ w₁.blocks = w.blocks) := by
  obtain ⟨a, scope⟩ := p
  cases a with
  | answered a => exact ⟨_, rfl, rfl, fun _ => ⟨rfl, rfl⟩⟩
  | faulted f => cases ofBlock <;> exact ⟨_, rfl, rfl, nofun⟩
  | standing e rest => exact ⟨_, rfl, rfl, nofun⟩
  | commitLost => exact absurd rfl ends

theorem Worker.isBusy_eq_false {w : Worker} (free : w.pending = none) (unasked : w.asking?.isSome = false) :
    w.isBusy = false := by
  rw [isBusy, free, unasked]
  rfl

/-- An elastic commit can be counted if a commit of another mode can. -/
theorem Tally.countCommit_elastic {t t' : Tally} (le : t.elastic ≤ t.commits) {mode : Mode} {wroteNothing : Bool}
    (counted : t.countCommit mode wroteNothing = .ok t') :
    ∃ t'', t.countCommit .elastic wroteNothing = .ok t'' := by
  have fits := Tally.fits_of_checked counted
  refine ⟨_, if_pos ?_⟩
  simp only [Tally.fits, Bool.and_eq_true, decide_eq_true_eq] at fits ⊢
  obtain ⟨⟨⟨⟨⟨⟨commits, readOnly⟩, declared⟩, -⟩, aborts⟩, exhausted⟩, abandoned⟩ := fits
  have undeclared : t.declaredReadOnly < wordRange := by omega
  have elastic : t.elastic + 1 < wordRange := by omega
  exact ⟨⟨⟨⟨⟨⟨commits, readOnly⟩, undeclared⟩, elastic⟩, aborts⟩, exhausted⟩, abandoned⟩

/-! ## Reads of a traversal -/

namespace System

variable {s s' : System} {owner : OwnerId} {w w' : Worker}

/-- A call that goes on at once changes the runtime and the worker as its segments do. -/
theorem through_eq (here : s.worker? owner = some w) (idle : w.isBusy = false) {request : Request}
    {p : Progress × Scope} (through : Scope.onward ((w.scope s.runtime).perform request) = p)
    (call : ∀ e rest, ((w.scope s.runtime).perform request).1 = .standing e rest → rest.isGiveUp = false)
    (ends : p.1 ≠ .commitLost) : ∃ s₁ w₁,
      s.through owner request = ((p.1.response : Response α ε), s₁) ∧
      Beside owner { s with runtime := p.2.runtime } s₁ ∧ s₁.worker? owner = some w₁ ∧
      w₁.context = p.2.context ∧ (p.1.isAnswered = true → w₁.isBusy = false) := by
  have unasked : w.asking?.isSome = false := (Bool.or_eq_false_iff.mp idle).2
  unfold System.through
  rw [step_call here idle]
  generalize (w.scope s.runtime).perform request = first at through call
  obtain ⟨a, scope⟩ := first
  cases a with
  | standing e rest =>
    cases e with
    | extended o bound candidate =>
      subst through
      -- The call stands at the event, and is then taken up by the same worker.
      let w₀ : Worker := { w with context := scope.context, pending := some rest }
      let s₀ : System := setWorker { s with runtime := scope.runtime } owner w₀
      have stands : s₀.worker? owner = some w₀ := worker?_setWorker.trans (if_pos rfl)
      obtain ⟨w₁, advanced, context, settled⟩ :=
        w₀.advance_cases (α := α) (ε := ε) rest.isOfBlock ends
      have resumed : w₀.step (α := α) (ε := ε) s₀.runtime .resume = _ :=
        (Worker.resume_eq_advance (call _ rest rfl)).trans advanced
      have taken : s₀.step (.act owner .resume : Action α ε) = _ := act_eq stands .resume
      rw [resumed] at taken
      refine ⟨_, w₁, taken, ?_, worker?_setWorker.trans (if_pos rfl), context, fun answered => ?_⟩
      · exact (beside_setWorker s owner _ w₀).trans (beside_setWorker s₀ owner _ w₁)
      · obtain ⟨free, blocks⟩ := settled answered
        refine Worker.isBusy_eq_false free ?_
        rw [Worker.asking?, blocks]
        exact unasked
    | _ =>
      subst through
      exact ⟨_, _, rfl, beside_setWorker .., worker?_setWorker.trans (if_pos rfl),
        rfl, fun answered => absurd answered Bool.false_ne_true⟩
  | answered a =>
    subst through
    exact ⟨_, _, rfl, beside_setWorker .., worker?_setWorker.trans (if_pos rfl), rfl, fun _ => unasked⟩
  | faulted f =>
    subst through
    exact ⟨_, _, rfl, beside_setWorker .., worker?_setWorker.trans (if_pos rfl),
        rfl, fun answered => absurd answered Bool.false_ne_true⟩
  | commitLost =>
    subst through
    exact absurd rfl ends

theorem Orderly.through (h : s.Orderly) (pos : 0 < s.runtime.nextOwner) (owner : OwnerId) (request : Request) :
    (s.through (α := α) (ε := ε) owner request).2.Orderly ∧
      (s.through (α := α) (ε := ε) owner request).2.runtime.nextOwner = s.runtime.nextOwner := by
  have first := h.turn_step (a := (.act owner (.call request) : Action α ε)) pos nofun
  unfold System.through
  generalize s.step (.act owner (.call request) : Action α ε) = out at first
  obtain ⟨response, s₁⟩ := out
  split
  · next s₁ told =>
    cases told
    have second := (h.turn first).turn_step (a := (.act owner .resume : Action α ε))
      (first.nextOwner ▸ pos) nofun
    exact ⟨(h.turn first).turn second, second.nextOwner.trans first.nextOwner⟩
  · exact ⟨h.turn first, first.nextOwner⟩

/-- The commit of an attempt that has written nothing only has to be counted. -/
theorem commit_of_nothing (here : s.worker? owner = some w) (idle : w.isBusy = false)
    (active : w.context.phase = .active) (nothing : w.context.writes = {}) :
    (s.step (.act owner (.call .commit) : Action α ε)).1 =
      match w.context.tally.countCommit w.context.mode true with
      | .ok _ => .replied (.verdict true)
      | .error f => .faulted f := by
  have commits : (w.scope s.runtime).commit .commit = (w.scope s.runtime).finishCommit true := by
    unfold Scope.commit
    rw [show (w.scope s.runtime).context.phase = .active from active,
      show (w.scope s.runtime).context.writes = {} from nothing]
    rfl
  obtain ⟨context, finished⟩ := Scope.Secluded.finishCommit_verdict (w.scope s.runtime) true
  rw [step_call here idle, Scope.perform, commits, finished, Worker.scope]
  cases w.context.tally.countCommit w.context.mode true <;> rfl

/-! ## Two runs of a traversal -/

/-- The owner is in the middle of a traversal, all its reads under watch in the first system and the most recent
    ones in the second, and so many contexts may still be announced. -/
structure Abreast (owner : OwnerId) (n : Nat) (s s' : System) : Prop where
  orderly : s.Orderly
  pos : 0 < s.runtime.nextOwner
  ids : s.runtime.nextOwner + n ≤ lockBit
  beside : Beside owner s s'
  seats : ∃ w w' window, s.worker? owner = some w ∧ s'.worker? owner = some w' ∧ w.isBusy = false ∧
    w'.isBusy = false ∧ w'.context = w.context.relaxed window ∧ w.context.Traversing s.runtime.table ∧
    ∀ e ∈ window.entries, e ∈ w.context.reads.entries

namespace Abreast

variable {n : Nat}

theorem others (h : Abreast owner n s s') {a : Action α ε} (other : a.owner? ≠ some owner)
    (few : a.isAnnounce.toNat ≤ n) : Abreast owner (n - a.isAnnounce.toNat) (s.step a).2 (s'.step a).2 := by
  obtain ⟨w, w', window, here, here', idle, idle', context, traversing, watched⟩ := h.seats
  have turn := h.orderly.turn_step (a := a) h.pos fun announces => by
    have ids := h.ids
    rw [announces] at few
    simp only [Bool.toNat_true] at few
    omega
  have next := turn.nextOwner
  refine ⟨h.orderly.turn turn, by have := h.pos; omega, by have := h.ids; omega, (h.beside.step other).2,
    w, w', window, (worker?_step_of_ne other).trans here, (worker?_step_of_ne other).trans here', idle, idle',
    context, ?_, watched⟩
  refine { traversing with placed := fun e member => ?_ }
  rw [LockTable.size_congr (h.orderly.bits_step a)]
  exact traversing.placed e member

/-- A read of both: the first one aborts, or both meet the same fault, or both get the same value and are
    abreast again. -/
theorem read (h : Abreast owner n s s') (probes : Bool) (l : Location) (kind : Kind) :
    let request : Request := if probes then .read l kind else .load l kind
    (s.through (α := α) (ε := ε) owner request).1.isAbort = true ∨
    (∃ f, (s.through (α := α) (ε := ε) owner request).1 = .faulted f ∧
      (s'.through (α := α) (ε := ε) owner request).1 = .faulted f) ∨
    ∃ v s₁ s₁', s.through (α := α) (ε := ε) owner request = (.replied (.value v), s₁) ∧
      s'.through (α := α) (ε := ε) owner request = (.replied (.value v), s₁') ∧ Abreast owner n s₁ s₁' ∧
      s₁'.upper? owner = s₁.upper? owner := by
  intro request
  obtain ⟨w, w', window, here, here', idle, idle', context, traversing, watched⟩ := h.seats
  have scope : w'.scope s'.runtime = ⟨s.runtime, w.context.relaxed window⟩ := by
    rw [Worker.scope, h.beside.runtime, context]
  have keepsUp : Scope.KeepsUp s.runtime (Scope.onward ((w.scope s.runtime).perform request))
      (Scope.onward ((w'.scope s'.runtime).perform request)) := by
    rw [scope]
    cases probes with
    | true => exact Scope.keepsUp_read traversing watched
    | false => exact Scope.keepsUp_load traversing watched
  have segment : ∀ t : Scope, Scope.Segment t 0 (t.perform request) := fun t => by
    cases probes with
    | true => exact .read t
    | false => exact .load t
  have call : ∀ (t : Scope) (e : Event) (rest : Pending), (t.perform request).1 = .standing e rest →
      rest.isGiveUp = false := fun t e rest stands => ((segment t).standing e rest stands).2.2
  obtain ⟨orderly, next⟩ := h.orderly.through (α := α) (ε := ε) h.pos owner request
  cases keepsUp with
  | aborts told =>
    obtain ⟨s₁, w₁, answered, -⟩ := through_eq (α := α) (ε := ε) here idle rfl (call _)
      (by rintro lost; rw [lost] at told; cases told)
    refine Or.inl ?_
    rw [answered]
    exact Progress.isAbort_response told
  | faults f strict elastic =>
    obtain ⟨s₁, w₁, answered, -⟩ := through_eq (α := α) (ε := ε) here idle rfl (call _)
      (by rw [strict]; exact Progress.noConfusion)
    obtain ⟨s₁', w₁', answered', -⟩ := through_eq (α := α) (ε := ε) here' idle' rfl (call _)
      (by rw [elastic]; exact Progress.noConfusion)
    refine Or.inr (Or.inl ⟨f, ?_, ?_⟩)
    · rw [answered, strict]
      rfl
    · rw [answered', elastic]
      rfl
  | answers v c window₁ strict elastic traversing₁ watched₁ =>
    obtain ⟨s₁, w₁, answered, beside, there, context₁, idle₁⟩ := through_eq (α := α) (ε := ε) here idle strict
      (call _) Progress.noConfusion
    obtain ⟨s₁', w₁', answered', beside', there', context₁', idle₁'⟩ := through_eq (α := α) (ε := ε) here' idle'
      elastic (call _) Progress.noConfusion
    -- Each system is beside the one that it was, so the two are beside each other as before.
    rw [answered] at orderly next
    have left : Beside owner s s₁ := beside
    have right : Beside owner s' s₁' :=
      ⟨beside'.runtime.trans h.beside.runtime.symm, beside'.announced, beside'.others⟩
    refine Or.inr (Or.inr ⟨v, s₁, s₁', answered, answered', ⟨orderly, ?_, ?_, ?_, w₁, w₁', window₁, there,
      there', idle₁ rfl, idle₁' rfl, ?_, ?_, ?_⟩, ?_⟩)
    · rw [next]
      exact h.pos
    · rw [next]
      exact h.ids
    · exact (left.symm.trans h.beside).trans right
    · rw [context₁, context₁']
    · rw [context₁, left.runtime]
      exact traversing₁
    · rw [context₁]
      exact watched₁
    · rw [upper?, upper?, there, there', Option.map_some, Option.map_some, context₁, context₁']
      rfl

/-- If the commit of the first is told to have succeeded, that of the second is. -/
theorem commit (h : Abreast owner n s s') :
    ((s.step (.act owner (.call .commit) : Action α ε)).1 = .replied (.verdict true) →
      (s'.step (.act owner (.call .commit) : Action α ε)).1 = .replied (.verdict true)) ∧
    (s'.step (.act owner (.call .commit) : Action α ε)).1.isAbort = false := by
  obtain ⟨w, w', window, here, here', idle, idle', context, traversing, -⟩ := h.seats
  have relaxed : w'.context.mode = .elastic ∧ w'.context.tally = w.context.tally ∧
      w'.context.phase = w.context.phase ∧ w'.context.writes = w.context.writes := by
    rw [context]
    exact ⟨rfl, rfl, rfl, rfl⟩
  obtain ⟨mode, tally, phase, writes⟩ := relaxed
  rw [commit_of_nothing here idle traversing.active traversing.nothing,
    commit_of_nothing here' idle' (phase.trans traversing.active) (writes.trans traversing.nothing), mode, tally]
  cases strict : w.context.tally.countCommit w.context.mode true with
  | error f =>
    refine ⟨nofun, ?_⟩
    cases w.context.tally.countCommit .elastic true <;> rfl
  | ok t =>
    obtain ⟨t', elastic⟩ := Tally.countCommit_elastic traversing.counted strict
    rw [elastic]
    exact ⟨fun _ => rfl, rfl⟩

/-- The start of an attempt, once with all reads under watch and once elastic. -/
theorem begin (orderly : s.Orderly) (pos : 0 < s.runtime.nextOwner) (ids : s.runtime.nextOwner + n ≤ lockBit)
    (here : s.worker? owner = some w) (idle : w.isBusy = false)
    (counted : w.context.tally.elastic ≤ w.context.tally.commits) (block : Nat) {mode : Mode}
    (strict : mode.isElastic = false) : ∃ s₁ s₁',
      s.step (.act owner (.call (.start block mode)) : Action α ε) = (.replied .done, s₁) ∧
      s.step (.act owner (.call (.start block .elastic)) : Action α ε) = (.replied .done, s₁') ∧
      Abreast owner n s₁ s₁' := by
  have unasked : w.asking?.isSome = false := (Bool.or_eq_false_iff.mp idle).2
  -- Both give the slots of an attempt that was left back in the same way.
  obtain ⟨table, -, started⟩ := (orderly.holding owner w here).start_eq
  have turn := orderly.turn_step (a := (.act owner (.call (.start block mode)) : Action α ε)) pos nofun
  have next := turn.nextOwner
  have orderly₁ := orderly.turn turn
  let fresh (mode : Mode) : Scope :=
    .fresh ⟨{ s.runtime with table }, { w.context with writes := {} }⟩ block mode
  have done : ∀ mode, s.step (.act owner (.call (.start block mode)) : Action α ε) = (.replied .done,
      setWorker { s with runtime := (fresh mode).runtime } owner
        { w with context := (fresh mode).context, pending := none }) := by
    intro mode
    rw [step_call here idle, Scope.perform, started]
    rfl
  rw [done mode] at orderly₁ next
  refine ⟨_, _, done mode, done .elastic, orderly₁, next ▸ pos, next ▸ ids, ⟨rfl, rfl, fun o other => ?_⟩, ?_⟩
  · rw [worker?_setWorker, worker?_setWorker, if_neg other.symm, if_neg other.symm]
    rfl
  · refine ⟨_, _, w.context.window.clear, worker?_setWorker.trans (if_pos rfl),
      worker?_setWorker.trans (if_pos rfl), Worker.isBusy_eq_false rfl unasked,
      Worker.isBusy_eq_false rfl unasked, rfl, ⟨rfl, strict, rfl, List.forall_mem_nil _, counted⟩,
      List.forall_mem_nil _⟩

end Abreast

end System

/-! ## Progress -/

/-- A second run of a traversal gets as far as a first one, which it aborts no sooner than. -/
structure Sighting.KeptUpBy (strict elastic : Sighting α ε) : Prop where
  answers : strict.answers <+: elastic.answers
  committed : strict.last = .replied (.verdict true) → elastic = strict
  aborted : elastic.last.isAbort = true → strict.last.isAbort = true

namespace Sighting.KeptUpBy

/-- Whatever the second run comes to, the first one has come to an abort. -/
theorem of_abort {told : Response α ε} (abort : told.isAbort = true) (elastic : Sighting α ε) :
    KeptUpBy { last := told } elastic where
  answers := List.nil_prefix
  committed committed := by
    cases (committed : told = _)
    cases abort
  aborted _ := abort

theorem of_fault (f : Fault) : KeptUpBy (α := α) (ε := ε) { last := .faulted f } { last := .faulted f } where
  answers := List.prefix_rfl
  committed _ := rfl
  aborted := nofun

theorem cons {strict elastic : Sighting α ε} (h : strict.KeptUpBy elastic) (a : Value × Option Nat) :
    KeptUpBy { strict with answers := a :: strict.answers } { elastic with answers := a :: elastic.answers } where
  answers := List.cons_prefix_cons.mpr ⟨rfl, h.answers⟩
  committed committed := by rw [h.committed committed]
  aborted := h.aborted

end Sighting.KeptUpBy

/-- The induction is on the traversal; what others do keeps the systems abreast, and so does a read that both
    answer. -/
theorem System.Abreast.run {owner : OwnerId} : ∀ {p : Traversal α ε} {n : Nat} {s s' : System},
    Abreast owner n s s' → p.LeavesAlone owner → p.AnnouncesAtMost n →
      (p.run owner s).KeptUpBy (p.run owner s') := by
  intro p
  induction p with
  | done =>
    intro n s s' h _ _
    obtain ⟨committed, passed⟩ := h.commit (α := α) (ε := ε)
    refine ⟨List.prefix_rfl, fun told => ?_, fun aborted => ?_⟩
    · simp only [Traversal.run] at told ⊢
      rw [told, committed told]
    · cases passed.symm.trans aborted
  | beside a rest ih =>
    intro n s s' h ⟨other, others⟩ ⟨few, fewer⟩
    exact ih (h.others other few) others fewer
  | read probes l kind next ih =>
    intro n s s' h others few
    rcases h.read (α := α) (ε := ε) probes l kind with abort | ⟨f, strict, elastic⟩ |
      ⟨v, s₁, s₁', strict, elastic, abreast, upper⟩
    · rw [Traversal.run_read_of_stopped fun v told => by rw [told] at abort; cases abort]
      exact .of_abort abort _
    · rw [Traversal.run_read_of_stopped (by rw [strict]; nofun), strict,
        Traversal.run_read_of_stopped (by rw [elastic]; nofun), elastic]
      exact .of_fault f
    · simp only [Traversal.run, strict, elastic, upper]
      exact (ih v abreast (others v) (few v)).cons _

/-- In any run of any contexts, whatever faults they meet, let a context be between calls, and let it run an
    attempt that only reads, with any steps of others between its reads.  Against the same steps, the attempt
    gets at least as far in the elastic mode as in another one: it has the same values, and the same bound of its
    snapshot after each of them, for all reads that the other attempt gets answered; if that one commits, the
    two are the same; and if the elastic one aborts, that one has aborted, at the same read or before. -/
theorem elastic_traversal_keeps_up {settings : Settings} {r : Runtime} (new : Runtime.new? settings = .ok r)
    (m : Memory) (before : List (Action α ε)) (owner : OwnerId) (w : Worker)
    (here : ((Chronicle.start r m).run before).system.worker? owner = some w) (idle : w.isBusy = false)
    (p : Traversal α ε) (others : p.LeavesAlone owner) (n : Nat) (few : p.AnnouncesAtMost n)
    (owners : before.countP Action.isAnnounce + n < lockBit) (block : Nat) (mode : Mode)
    (strict : mode.isElastic = false) :
    let s := ((Chronicle.start r m).run before).system
    (p.attempt owner block mode s).KeptUpBy (p.attempt owner block .elastic s) := by
  intro s
  have announced : before.countP Action.isAnnounce < lockBit := by omega
  obtain ⟨orderly, next⟩ := Chronicle.orderly_run new m announced
  have counted : w.context.tally.elastic ≤ w.context.tally.commits :=
    Chronicle.elastic_le_run new m announced here
  obtain ⟨s₁, s₁', started, started', abreast⟩ := System.Abreast.begin (α := α) (ε := ε) (n := n) orderly (by omega)
    (by omega) here idle counted block strict
  have kept := abreast.run others few
  rw [Traversal.attempt, Traversal.attempt, started, started']
  exact kept

/-- Another context overwrites the second field after the first has been read, so the bound of the snapshot has
    to move. -/
theorem elastic_traversal_keeps_up_with_extension :
    let before : List (Action Unit Unit) := [.announce, .announce, .register ⟨1⟩, .register ⟨2⟩]
    let s := ((Chronicle.start smallRuntime pair).run before).system
    let p : Traversal Unit Unit := .read true ⟨16, 0⟩ .u64 fun _ =>
      .beside (.act ⟨2⟩ (.call (.start 0 .regular))) (.beside (.act ⟨2⟩ (.call (.write ⟨16, 1⟩ (.u64 5))))
        (.beside (.act ⟨2⟩ (.call .commit)) (.read false ⟨16, 1⟩ .u64 fun _ => .done)))
    (p.attempt ⟨1⟩ 0 .elastic s).answers = [(.u64 1, some 0), (.u64 5, some 1)] ∧
      (p.attempt ⟨1⟩ 0 .elastic s).last = .replied (.verdict true) := by
  intro before s p
  have there : (s.worker? ⟨1⟩).isSome = true := by decide +kernel
  obtain ⟨w, here⟩ := Option.isSome_iff_exists.mp there
  have idle : w.isBusy = false := by
    have idles : ∀ w ∈ s.worker? ⟨1⟩, w.isBusy = false := by decide +kernel
    exact idles w here
  obtain ⟨answers, last⟩ : (p.attempt ⟨1⟩ 0 .regular s).answers = [(.u64 1, some 0), (.u64 5, some 1)] ∧
      (p.attempt ⟨1⟩ 0 .regular s).last = .replied (.verdict true) := by decide +kernel
  have kept := elastic_traversal_keeps_up smallRuntime_new pair before ⟨1⟩ w here idle p
    (fun _ => ⟨by decide, by decide, by decide, fun _ => trivial⟩) 0
    (fun _ => ⟨by decide, by decide, by decide, fun _ => trivial⟩) (by decide) 0 .regular rfl
  rw [kept.committed last]
  exact ⟨answers, last⟩

/-- An elastic traversal goes on where another context has overwritten what it has left behind. -/
example :
    let before : List (Action Unit Unit) := [.announce, .announce, .register ⟨1⟩, .register ⟨2⟩]
    let s := ((Chronicle.start smallRuntime pair).run before).system
    let p : Traversal Unit Unit := .read true ⟨16, 0⟩ .u64 fun _ => .read true ⟨16, 1⟩ .u64 fun _ =>
      .read true ⟨16, 1⟩ .u64 fun _ => .beside (.act ⟨2⟩ (.call (.start 0 .regular)))
        (.beside (.act ⟨2⟩ (.call (.write ⟨16, 0⟩ (.u64 5))))
        (.beside (.act ⟨2⟩ (.call .commit)) (.read false ⟨16, 0⟩ .u64 fun _ => .done)))
    (p.attempt ⟨1⟩ 0 .regular s).last = .standing (.abort ⟨1⟩ 0 .extendFailed) ∧
      (p.attempt ⟨1⟩ 0 .elastic s).last = .replied (.verdict true) := by
  decide +kernel

end TransactionalMemory
