import TransactionalMemory.Proofs.Attempts

/-! # Every action of a worker is made of moves

Whatever a client does with a worker, calls and whole blocks alike, its seat goes from one state to the
next by moves, and ends up where the record of the run says (`Sound.step_moves`).  Blocks add nothing
but the question which attempts are begun: an atomic block keeps its mode through all of them.
-/

namespace TransactionalMemory

variable {α ε : Type} {allowed : Mode → Prop} {m₀ : Memory} {d : Seat}

/-- What a client learns from a call of its own. -/
def Progress.response : Progress → Response α ε
  | .answered r => .replied r
  | .faulted f => .faulted f
  | .standing e _ => .standing e
  | .commitLost => .refused .outOfTurn

/-- Whether a request leaves no record: it is no access to a value, begins nothing and does not move the
    bound. -/
def Request.isPlain : Request → Bool
  | .probe _ | .commit | .rollback | .publish => true
  | _ => false

def WorkerAction.isCall : WorkerAction α ε → Bool
  | .call _ => true
  | _ => false

/-- Whether a response is neither the answer to a call nor the start of an attempt. -/
def Response.isQuiet : Response α ε → Bool
  | .standing _ | .question _ | .ended _ | .refused _ => true
  | _ => false

/-! ## The record of an attempt after an action -/

namespace Seat

variable {action : WorkerAction α ε} {response : Response α ε}

theorem attemptAfter_of_nothing (begun : begins action response = false)
    (access : d.access? action response = none) (asked : asksToExtend action response = false)
    (whole : d.breaksAbort response = false) : d.attemptAfter action response = d.attempt := by
  simp [attemptAfter, begun, access, asked, whole]

theorem breaksAbort_of_not_isAbort (noAbort : ¬ Pending.isAbort d.pending) (response : Response α ε) :
    d.breaksAbort response = false := by
  simp only [breaksAbort]
  split
  · split
    · next waiting =>
      rw [waiting] at noAbort
      exact absurd trivial noAbort
    · rfl
  · rfl

theorem breaksAbort_of_free (free : d.pending = none) (response : Response α ε) :
    d.breaksAbort response = false :=
  breaksAbort_of_not_isAbort (Pending.not_isAbort_of_free free) response

variable {l : Location} {kind : Kind} {v : Value}

theorem attemptAfter_read (free : d.pending = none) {request : Request}
    (reads : request = .read l kind ∨ request = .load l kind) (p : Progress) :
    d.attemptAfter (.call request) (p.response : Response α ε) = d.readRecord l kind p := by
  have whole := breaksAbort_of_free (α := α) (ε := ε) free
  rcases reads with rfl | rfl <;> cases p with
  | answered r => cases r <;>
      simp [attemptAfter, begins, access?, asksToExtend, whole, readRecord, Attempt.add, Progress.response]
  | _ => simp [attemptAfter, begins, access?, asksToExtend, whole, readRecord, Progress.response]

theorem attemptAfter_write (free : d.pending = none) (p : Progress) :
    d.attemptAfter (.call (.write l v)) (p.response : Response α ε) = d.writeRecord l v p := by
  have whole := breaksAbort_of_free (α := α) (ε := ε) free
  cases p with
  | answered r => cases r <;>
      simp [attemptAfter, begins, access?, asksToExtend, whole, writeRecord, Attempt.add,
        Progress.response]
  | _ => simp [attemptAfter, begins, access?, asksToExtend, whole, writeRecord, Progress.response]

theorem attemptAfter_extend (free : d.pending = none) {p : Progress} (ends : p ≠ .commitLost) :
    d.attemptAfter (.call .extend) (p.response : Response α ε) =
      { d.attempt with extended := true } := by
  have whole := breaksAbort_of_free (α := α) (ε := ε) free
  cases p with
  | commitLost => exact absurd rfl ends
  | answered r => cases r <;> simp [attemptAfter, begins, access?, asksToExtend, whole, Progress.response]
  | _ => simp [attemptAfter, begins, access?, asksToExtend, whole, Progress.response]

theorem attemptAfter_plain (free : d.pending = none) {request : Request} (plain : request.isPlain = true)
    (p : Progress) : d.attemptAfter (.call request) (p.response : Response α ε) = d.attempt := by
  have whole := breaksAbort_of_free (α := α) (ε := ε) free
  cases request with
  | probe l => cases p <;> exact attemptAfter_of_nothing rfl rfl rfl (whole _)
  | commit => cases p <;> exact attemptAfter_of_nothing rfl rfl rfl (whole _)
  | rollback => cases p <;> exact attemptAfter_of_nothing rfl rfl rfl (whole _)
  | publish => cases p <;> exact attemptAfter_of_nothing rfl rfl rfl (whole _)
  | _ => cases plain

theorem attemptAfter_resume {candidate : Nat} {next : AfterExtension}
    (waiting : d.pending = some (.extend candidate next)) (p : Progress) :
    d.attemptAfter .resume (p.response : Response α ε) = d.nextRecord next p := by
  have noAbort : ¬ Pending.isAbort d.pending := by rw [waiting]; exact id
  have whole := breaksAbort_of_not_isAbort (α := α) (ε := ε) noAbort
  cases next <;> cases p with
  | answered r => cases r <;> simp [attemptAfter, begins, access?, asksToExtend, whole, nextRecord,
      readRecord, Attempt.add, Progress.response, waiting]
  | _ => simp [attemptAfter, begins, access?, asksToExtend, whole, nextRecord, readRecord,
      Progress.response]

theorem attemptAfter_abort {c : Conflict} {site : AbortSite} (waiting : d.pending = some (.abort c site))
    (p : Progress) : d.attemptAfter .resume (p.response : Response α ε) = d.abortRecord p := by
  cases p with
  | answered r => cases r <;> simp [attemptAfter, begins, access?, asksToExtend, breaksAbort, abortRecord,
      Progress.response, waiting]
  | _ => simp [attemptAfter, begins, access?, asksToExtend, breaksAbort, abortRecord, Progress.response,
      waiting]

theorem attemptAfter_of_isQuiet (quiet : response.isQuiet = true) (own : action.isCall = false) :
    d.attemptAfter action response = d.attempt := by
  cases action with
  | call r => cases own
  | _ =>
    refine attemptAfter_of_nothing ?_ ?_ rfl ?_
    · cases response <;> first | rfl | cases quiet
    · cases response <;> first | rfl | cases quiet
    · cases response <;> first | rfl | cases quiet

theorem attemptAfter_refused (why : Refusal) :
    d.attemptAfter action (.refused why) = d.attempt := by
  refine attemptAfter_of_nothing (begins_refused action why) ?_ ?_ rfl
  · cases action with
    | call r => cases r <;> rfl
    | _ => rfl
  · cases action with
    | call r => cases r <;> rfl
    | _ => rfl

end Seat

/-! ## Calls -/

/-- A segment of a call that is made of moves and of which nothing is left to the blocks. -/
structure Performs (allowed : Mode → Prop) (d : Seat) (action : WorkerAction α ε)
    (p : Progress × Scope) : Prop where
  moves : Moves allowed d
    (d.become p.2.runtime p.2.context p.1.rest? (d.attemptAfter action p.1.response))
  answered : p.1 ≠ .commitLost

namespace Performs

theorem of_leads {request : Request} {record : Progress → Attempt} {p : Progress × Scope}
    (leads : Leads allowed d record p) (free : d.pending = none)
    (same : p.1 ≠ .commitLost →
      d.attemptAfter (.call request) (p.1.response : Response α ε) = record p.1) :
    Performs allowed d (.call request : WorkerAction α ε) p := by
  have answered : p.1 ≠ .commitLost := fun lost =>
    absurd (leads.lost lost) (Pending.not_isAbort_of_free free)
  refine ⟨?_, answered⟩
  rw [same answered]
  exact leads.become

theorem rollback (h : Sound allowed m₀ d) (free : d.pending = none) :
    Performs allowed d (.call .rollback : WorkerAction α ε) (Scope.silent d.scope.rollback) := by
  obtain ⟨s, rolled, inactive, unended, moves⟩ := h.rollback_moves (by rw [free]; exact id)
  rw [rolled]
  refine ⟨?_, Progress.noConfusion⟩
  rw [Seat.attemptAfter_plain free rfl]
  show Moves allowed d (d.become s.runtime s.context none d.attempt)
  rw [Seat.become_of_uncommitted unended, ← free]
  exact moves

theorem start (h : Sound allowed m₀ d) (free : d.pending = none) (block : Nat) {mode : Mode}
    (may : allowed mode) :
    Performs allowed d (.call (.start block mode) : WorkerAction α ε)
      (Scope.silent (d.scope.start block mode)) := by
  obtain ⟨s, started, active, moves⟩ := h.start_moves free block may
  rw [started]
  refine ⟨?_, Progress.noConfusion⟩
  show Moves allowed d (d.become s.runtime s.context none { number := d.attempt.number + 1 })
  rw [Seat.become_of_uncommitted fun _ => Phase.not_committed active]
  exact moves

theorem extend (h : Sound allowed m₀ d) (free : d.pending = none) :
    Performs allowed d (.call .extend : WorkerAction α ε) d.scope.extend := by
  have remarked := h.remarked true d.attempt.broken (fun _ => rfl) id
  have leads : Leads allowed { d with attempt := { d.attempt with extended := true } }
      (fun _ => { d.attempt with extended := true }) d.scope.extend := by
    simp only [Scope.extend]
    exact .tryExtend free rfl (fun _ => rfl) (fun _ _ => rfl)
      (.stay (Pending.not_isAbort_of_free free) id Progress.noConfusion rfl)
  exact .of_leads (leads.of_moves remarked rfl rfl rfl free) free
    fun answered => Seat.attemptAfter_extend free answered

theorem perform (h : Sound allowed m₀ d) (free : d.pending = none) {request : Request}
    (exist : ∀ l v, request = .write l v → d.runtime.memory.Has l)
    (may : ∀ block mode, request = .start block mode → allowed mode)
    (small : d.runtime.clock.now + 1 < lockBit) :
    Performs allowed d (.call request : WorkerAction α ε) (d.scope.perform request) := by
  cases request with
  | start block mode => exact .start h free block (may block mode rfl)
  | probe l =>
    have leads : Leads allowed d (fun _ => d.attempt) (d.scope.probe l) :=
      .probe free (fun _ => rfl) (fun _ => rfl) (fun _ _ => rfl) rfl
    exact .of_leads leads free fun _ => Seat.attemptAfter_plain free rfl _
  | load l kind =>
    exact .of_leads (.load free) free fun _ => Seat.attemptAfter_read free (.inr rfl) _
  | read l kind =>
    exact .of_leads (.read free) free fun _ => Seat.attemptAfter_read free (.inl rfl) _
  | write l v =>
    exact .of_leads (.write h free (exist l v rfl)) free fun _ => Seat.attemptAfter_write free _
  | commit =>
    obtain ⟨answered, moves⟩ := h.commit_moves free small .commit rfl
    refine ⟨?_, answered⟩
    rw [Seat.attemptAfter_plain free rfl]
    exact moves
  | rollback => exact .rollback h free
  | extend => exact .extend h free
  | publish => exact .of_leads (.publish h free) free fun _ => Seat.attemptAfter_plain free rfl _

end Performs

/-! ## Workers -/

def Seat.worker (d : Seat) (blocks : List Block) : Worker :=
  { context := d.context, pending := d.pending, blocks }

/-- A step of the worker at a seat that is made of moves and keeps the modes of its blocks. -/
structure Steps (allowed : Mode → Prop) (d : Seat) (action : WorkerAction α ε)
    (out : Response α ε × Runtime × Worker) : Prop where
  moves : Moves allowed d (d.next action out.1 out.2.1 out.2.2)
  modes : ∀ b ∈ out.2.2.blocks, allowed b.mode

namespace Worker

theorem advance_eq (w : Worker) (ofBlock : Bool) {p : Progress × Scope} (answered : p.1 ≠ .commitLost) :
    ∃ blocks, (∀ b ∈ blocks, b ∈ w.blocks) ∧
      w.advance ofBlock p = ((p.1.response : Response α ε), p.2.runtime,
        { context := p.2.context, pending := p.1.rest?, blocks }) := by
  obtain ⟨q, s⟩ := p
  cases q with
  | answered r => exact ⟨w.blocks, fun _ member => member, rfl⟩
  | standing e rest => exact ⟨w.blocks, fun _ member => member, rfl⟩
  | commitLost => exact absurd rfl answered
  | faulted f =>
    cases ofBlock with
    | true => exact ⟨w.blocks.tail, fun _ => List.mem_of_mem_tail, rfl⟩
    | false => exact ⟨w.blocks, fun _ member => member, rfl⟩

theorem afterConflict_eq (w : Worker) (c : Conflict) (s : Scope) :
    ∃ (response : Response α ε) (pending : Option Pending) (blocks : List Block),
      response.isQuiet = true ∧ (pending = none ∨ ∃ reason report, pending = some (.giveUp reason report)) ∧
      (∀ b ∈ blocks, ∃ b' ∈ w.blocks, b'.mode = b.mode) ∧
      w.afterConflict c s = (response, s.runtime, { context := s.context, pending, blocks }) := by
  simp only [afterConflict]
  split
  · exact ⟨_, _, w.blocks, rfl, Or.inl rfl, fun b member => ⟨b, member, rfl⟩, rfl⟩
  · next b rest blocks =>
    split
    · exact ⟨_, _, w.blocks, rfl, Or.inr ⟨_, _, rfl⟩, fun b member => ⟨b, member, rfl⟩, rfl⟩
    · refine ⟨_, _, { b with question := some c } :: rest, rfl, Or.inl rfl, ?_, rfl⟩
      intro b' member
      rw [blocks]
      cases member with
      | head => exact ⟨b, List.mem_cons_self, rfl⟩
      | tail _ member => exact ⟨b', List.mem_cons_of_mem _ member, rfl⟩

end Worker

namespace Steps

variable {action : WorkerAction α ε} {blocks : List Block}

theorem refuse (modes : ∀ b ∈ blocks, allowed b.mode) (why : Refusal) :
    Steps allowed d action ((d.worker blocks).refuse why d.runtime) := by
  refine ⟨?_, modes⟩
  show Moves allowed d (d.become d.runtime d.context d.pending (d.attemptAfter action (.refused why)))
  rw [Seat.attemptAfter_refused, Seat.become_of_uncommitted Phase.not_committed]

theorem advance {p : Progress × Scope} (performs : Performs allowed d action p)
    (modes : ∀ b ∈ blocks, allowed b.mode) (ofBlock : Bool) :
    Steps allowed d action ((d.worker blocks).advance ofBlock p) := by
  obtain ⟨left, sub, same⟩ := (d.worker blocks).advance_eq (α := α) (ε := ε) ofBlock performs.answered
  rw [same]
  exact ⟨performs.moves, fun b member => modes b (sub b member)⟩

theorem afterConflict {s : Scope}
    (moves : Moves allowed d (d.become s.runtime s.context none d.attempt))
    (modes : ∀ b ∈ blocks, allowed b.mode) (own : action.isCall = false) (c : Conflict) :
    Steps allowed d action ((d.worker blocks).afterConflict c s) := by
  obtain ⟨response, pending, left, quiet, gives, sub, same⟩ :=
    (d.worker blocks).afterConflict_eq (α := α) (ε := ε) c s
  rw [same]
  constructor
  · show Moves allowed d (d.become s.runtime s.context pending (d.attemptAfter action response))
    rw [Seat.attemptAfter_of_isQuiet quiet own]
    refine moves.tail (.turn pending ?_ fun _ abort => absurd abort id)
    rcases gives with rfl | ⟨reason, report, rfl⟩ <;> exact id
  · intro b member
    obtain ⟨b', member', mode⟩ := sub b member
    exact mode ▸ modes b' member'

theorem of_leads {record : Progress → Attempt} {p : Progress × Scope} (leads : Leads allowed d record p)
    (same : p.1 ≠ .commitLost → d.attemptAfter .resume (p.1.response : Response α ε) = record p.1)
    (lost : record .commitLost = d.attempt) (modes : ∀ b ∈ blocks, allowed b.mode) (ofBlock : Bool) :
    Steps allowed d (.resume : WorkerAction α ε) ((d.worker blocks).advance ofBlock p) := by
  -- A commit that is lost is taken up by the block, all other ends go to the client.
  by_cases answered : p.1 = .commitLost
  · obtain ⟨q, s⟩ := p
    cases answered
    have moves := leads.become
    rw [lost] at moves
    exact afterConflict moves modes rfl .invalidCommit
  · refine advance ⟨?_, answered⟩ modes ofBlock
    rw [same answered]
    exact leads.become

theorem resume (h : Sound allowed m₀ d) {rest : Pending} (waiting : d.pending = some rest)
    (modes : ∀ b ∈ blocks, allowed b.mode) :
    Steps allowed d (.resume : WorkerAction α ε) ((d.worker blocks).resume rest d.runtime) := by
  simp only [Worker.resume]
  cases rest with
  | abort c site =>
    exact .of_leads (.finishAbort h waiting) (fun _ => Seat.attemptAfter_abort waiting _) rfl modes _
  | failCommit site =>
    have noAbort : ¬ Pending.isAbort d.pending := by rw [waiting]; exact id
    have leads : Leads allowed d (fun _ => d.attempt) (d.scope.abort .invalidCommit site) :=
      .stay noAbort id Progress.noConfusion rfl
    exact .of_leads leads (fun _ => Seat.attemptAfter_of_isQuiet rfl rfl) rfl modes _
  | extend candidate next =>
    refine .of_leads (.extend h waiting) (fun _ => Seat.attemptAfter_resume waiting _) ?_ modes _
    cases next <;> rfl
  | giveUp reason report =>
    have noAbort : ¬ Pending.isAbort d.pending := by rw [waiting]; exact id
    have leads : Leads allowed d _ _ := .giveUp h waiting
    rw [show (d.worker blocks).scope d.runtime = d.scope from rfl]
    generalize d.scope.resume (.giveUp reason report) = p at leads
    obtain ⟨q, s⟩ := p
    cases q with
    | answered r =>
      refine ⟨?_, fun b member => modes b (List.mem_of_mem_tail member)⟩
      show Moves allowed d
        (d.become s.runtime s.context none (d.attemptAfter .resume (.ended (.failed report))))
      rw [Seat.attemptAfter_of_isQuiet rfl rfl]
      exact leads.become
    | faulted f =>
      have whole := Seat.breaksAbort_of_not_isAbort noAbort (.faulted f : Response α ε)
      exact .of_leads leads (fun _ => Seat.attemptAfter_of_nothing rfl rfl rfl whole) rfl modes _
    | standing e rest =>
      exact .of_leads leads (fun _ => Seat.attemptAfter_of_isQuiet rfl rfl) rfl modes _
    | commitLost => exact .of_leads leads (absurd rfl) rfl modes _

/-! ## Blocks -/

theorem faulted (free : d.pending = none) (modes : ∀ b ∈ blocks, allowed b.mode) {f : Fault}
    (own : action.isCall = false) {left : List Block} (sub : ∀ b ∈ left, b ∈ blocks) :
    Steps allowed d action (.faulted f, d.runtime, { context := d.context, pending := none, blocks := left }) := by
  refine ⟨?_, fun b member => modes b (sub b member)⟩
  have record : d.attemptAfter action (.faulted f) = d.attempt := by
    refine Seat.attemptAfter_of_nothing ?_ ?_ ?_ (Seat.breaksAbort_of_free free _)
    · cases action <;> first | rfl | cases own
    · cases action <;> first | rfl | cases own
    · cases action <;> first | rfl | cases own
  show Moves allowed d (d.become d.runtime d.context none (d.attemptAfter action (.faulted f)))
  rw [record, Seat.become_of_uncommitted Phase.not_committed, ← free]

theorem enter (h : Sound allowed m₀ d) (free : d.pending = none) (modes : ∀ b ∈ blocks, allowed b.mode)
    (block : Nat) {mode : Mode} (may : allowed mode) :
    Steps allowed d (.enter block mode : WorkerAction α ε)
      ((d.worker blocks).enter block mode d.runtime) := by
  obtain ⟨s, started, active, moves⟩ := h.start_moves free block may
  simp only [Worker.enter]
  rw [show (d.worker blocks).scope d.runtime = d.scope from rfl, started]
  constructor
  · show Moves allowed d (d.become s.runtime s.context none { number := d.attempt.number + 1 })
    rw [Seat.become_of_uncommitted fun _ => Phase.not_committed active]
    exact moves
  · intro b member
    cases member with
    | head => exact may
    | tail _ member => exact modes b member

theorem leaveBy (h : Sound allowed m₀ d) (free : d.pending = none)
    (modes : ∀ b ∈ blocks, allowed b.mode) (small : d.runtime.clock.now + 1 < lockBit)
    (result : BlockResult α ε) (body : BodyResult α ε) :
    Steps allowed d (.leave body) ((d.worker blocks).leaveBy result d.runtime) := by
  have whole := Seat.breaksAbort_of_free (α := α) (ε := ε) free
  simp only [Worker.leaveBy]
  rw [show (d.worker blocks).scope d.runtime = d.scope from rfl]
  obtain ⟨answered, moves⟩ := h.commit_moves free small .block rfl
  generalize d.scope.commit .block = p at answered moves
  obtain ⟨q, s⟩ := p
  have performs : ∀ plain : d.attemptAfter (.leave body) (q.response : Response α ε) = d.attempt,
      Performs allowed d (.leave body : WorkerAction α ε) (q, s) := fun plain =>
    ⟨by rw [plain]; exact moves, answered⟩
  cases q with
  | answered r =>
    have conflict : Steps allowed d (.leave body)
        ((d.worker blocks).afterConflict .invalidCommit s) :=
      afterConflict moves modes rfl .invalidCommit
    cases r with
    | verdict b =>
      cases b with
      | true =>
        refine ⟨?_, fun b member => modes b (List.mem_of_mem_tail member)⟩
        show Moves allowed d (d.become s.runtime s.context none (d.attemptAfter _ (.ended result)))
        rw [Seat.attemptAfter_of_isQuiet rfl rfl]
        exact moves
      | false => exact conflict
    | _ => exact conflict
  | faulted f =>
    exact advance (performs (Seat.attemptAfter_of_nothing rfl rfl rfl (whole _))) modes true
  | standing e rest =>
    exact advance (performs (Seat.attemptAfter_of_isQuiet rfl rfl)) modes true
  | commitLost => exact absurd rfl answered

theorem leaveOnConflict (h : Sound allowed m₀ d) (free : d.pending = none)
    (modes : ∀ b ∈ blocks, allowed b.mode) (c : Conflict) :
    Steps allowed d (.leave (.conflict c) : WorkerAction α ε)
      ((d.worker blocks).leaveOnConflict c d.runtime) := by
  have noExtension : ¬ Pending.isExtension d.pending := by rw [free]; exact id
  unfold Worker.leaveOnConflict
  rw [show (d.worker blocks).scope d.runtime = d.scope from rfl]
  dsimp only
  split
  · exact faulted free modes rfl fun _ => List.mem_of_mem_tail
  · next tally counted =>
    have counts := h.counted d.runtime.published tally d.context.lastConflict
    obtain ⟨s, rolled, inactive, unended, moves⟩ := (h.moves counts).rollback_moves noExtension
    replace rolled : Scope.rollback { d.scope with context := { d.scope.context with tally } } =
      (.ok (), s) := rolled
    rw [rolled]
    refine afterConflict ?_ modes rfl c
    rw [Seat.become_of_uncommitted (d := d) unended, ← free]
    exact counts.trans moves

theorem decide (h : Sound allowed m₀ d) (free : d.pending = none) (modes : ∀ b ∈ blocks, allowed b.mode)
    {b : Block} {c : Conflict} (asking : (d.worker blocks).asking? = some (b, c)) (control : Control) :
    Steps allowed d (.decide control : WorkerAction α ε)
      ((d.worker blocks).decide b c control d.runtime) := by
  -- The block that asks is the innermost one.
  have member : b ∈ blocks := by
    obtain ⟨b', head, asks⟩ := Option.bind_eq_some_iff.mp asking
    obtain ⟨c', _, same⟩ := Option.map_eq_some_iff.mp asks
    cases same
    exact List.mem_of_mem_head? head
  have noAbort := Pending.not_isAbort_of_free free
  cases control with
  | stop =>
    refine ⟨?_, modes⟩
    show Moves allowed d (d.become d.runtime d.context (some (.giveUp _ _))
      (d.attemptAfter (.decide .stop) (.standing _)))
    rw [Seat.attemptAfter_of_isQuiet rfl rfl,
      Seat.become_of_uncommitted Phase.not_committed]
    exact .single (.turn _ id fun _ abort => absurd abort noAbort)
  | retry =>
    obtain ⟨s, started, active, moves⟩ := h.start_moves free b.id (modes b member)
    unfold Worker.decide
    dsimp only
    rw [show Worker.scope { d.worker blocks with blocks := _ } d.runtime = d.scope from rfl, started]
    constructor
    · show Moves allowed d (d.become s.runtime s.context none { number := d.attempt.number + 1 })
      rw [Seat.become_of_uncommitted fun _ => Phase.not_committed active]
      exact moves
    · intro b' member'
      cases member' with
      | head => exact modes b member
      | tail _ member' => exact modes b' (List.mem_of_mem_tail member')

theorem unwind (h : Sound allowed m₀ d) (free : d.pending = none)
    (modes : ∀ b ∈ blocks, allowed b.mode) :
    Steps allowed d (.unwind : WorkerAction α ε) ((d.worker blocks).unwind d.runtime) := by
  have noExtension : ¬ Pending.isExtension d.pending := by rw [free]; exact id
  have whole := Seat.breaksAbort_of_free (α := α) (ε := ε) free
  obtain ⟨s, rolled, inactive, unended, moves⟩ := h.rollback_moves noExtension
  simp only [Worker.unwind]
  rw [show (d.worker blocks).scope d.runtime = d.scope from rfl, rolled]
  refine ⟨?_, fun b member => modes b (List.mem_of_mem_tail member)⟩
  show Moves allowed d
    (d.become s.runtime s.context none (d.attemptAfter .unwind (.replied .done : Response α ε)))
  rw [Seat.attemptAfter_of_nothing rfl rfl rfl (whole _), Seat.become_of_uncommitted unended, ← free]
  exact moves

end Steps

/-! ## Every action -/

/-- Every action of a worker is made of moves, within the limits of the machine. -/
theorem Sound.step_moves (h : Sound allowed m₀ d) {blocks : List Block}
    (modes : ∀ b ∈ blocks, allowed b.mode) {action : WorkerAction α ε}
    (exist : ∀ l v, action = .call (.write l v) → d.runtime.memory.Has l)
    (may : ∀ block mode, action = .call (.start block mode) ∨ action = .enter block mode → allowed mode)
    (small : d.runtime.clock.now + 1 < lockBit) :
    Steps allowed d action ((d.worker blocks).step d.runtime action) := by
  have dispatch := Worker.dispatch_step (d.worker blocks) d.runtime action
  generalize (d.worker blocks).step d.runtime action = out at dispatch ⊢
  cases dispatch with
  | refuse => exact .refuse modes _
  | call idle request =>
    exact .advance (.perform h (Worker.free_of_not_isBusy idle) (fun l v same => exist l v (by rw [same]))
      (fun block mode same => may block mode (Or.inl (by rw [same]))) small) modes false
  | resume rest waiting => exact .resume h waiting modes
  | enter idle block mode =>
    exact .enter h (Worker.free_of_not_isBusy idle) modes block (may block mode (Or.inr rfl))
  | leave inside body =>
    have free : d.pending = none := Worker.free_of_inBody inside
    cases body with
    | value a => exact .leaveBy h free modes small (.validated a) _
    | failure e => exact .leaveBy h free modes small (.cancelled e) _
    | conflict c => exact .leaveOnConflict h free modes c
  | decide free b c asking control => exact .decide h free modes asking control
  | unwind inside => exact .unwind h (Worker.free_of_atClient inside) modes

end TransactionalMemory
