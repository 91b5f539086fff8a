import TransactionalMemory.Proofs.Clients
import TransactionalMemory.Proofs.Seclusion
import TransactionalMemory.Reader

/-! # Calls as reads that others act inside of

A call that reads a field runs its loop in segments, and others act only where it stands at an event.  So it is a
reader whose moves come in runs: the reader goes on alone up to an answer or an event, and between these runs come the
actions of others (`Chronicle.reader_of_call`).  What holds of readers, however the others interfere, holds of
calls.
-/

namespace TransactionalMemory

variable {α ε : Type}

/-! ## The moves of the others -/

namespace ReaderMove

variable {owner : OwnerId}

def action? : ReaderMove α ε → Option (Action α ε)
  | own => none
  | other a => some a

def isOwn (move : ReaderMove α ε) : Bool := move.action?.isNone

/-- What the others do, in order. -/
def others (moves : List (ReaderMove α ε)) : List (Action α ε) := moves.filterMap action?

variable (moves moves' : List (ReaderMove α ε))

@[simp] theorem others_append : others (moves ++ moves') = others moves ++ others moves' := List.filterMap_append

@[simp] theorem others_own : others ([.own] : List (ReaderMove α ε)) = [] := rfl

@[simp] theorem others_other (a : Action α ε) : others [.other a] = [a] := rfl

@[simp] theorem others_alone (n : Nat) : others (List.replicate n (.own : ReaderMove α ε)) = [] := by
  rw [others, List.filterMap_eq_nil_iff]
  intro move member
  rw [List.eq_of_mem_replicate member]
  rfl

end ReaderMove

/-! ## A reader that goes on alone -/

namespace Reader

variable {x : Reader} {l : Location} {kind : Kind} {slot : Nat} {stage : ReadStage}

theorem run_append (x : Reader) (moves moves' : List (ReaderMove α ε)) :
    x.run (moves ++ moves') = (x.run moves).run moves' := List.foldl_append

theorem run_snoc (x : Reader) (moves : List (ReaderMove α ε)) (move : ReaderMove α ε) :
    x.run (moves ++ [move]) = (x.run moves).step move := List.foldl_concat ..

theorem run_alone_succ (x : Reader) (n : Nat) :
    x.run (List.replicate (n + 1) (.own : ReaderMove α ε)) =
      x.goOn.run (List.replicate n (.own : ReaderMove α ε)) := rfl

theorem goOn_of_reading (reading : x.course = .reading l kind slot stage) :
    x.goOn = x.comesTo (x.scope.readStep l kind slot stage) := by
  rw [goOn, reading]

theorem goOn_of_standing {e : Event} {rest : Pending} (stands : x.course = .stopped (.standing e rest)) :
    x.goOn = x.comesTo (x.scope.takeUp rest) := by
  rw [goOn, stands]

/-- A read that goes on alone comes to the end of its segment. -/
theorem comesTo_stop_of_reading (s : Scope) (l : Location) (kind : Kind) (slot : Nat) (stage : ReadStage) :
    ∃ n, ∀ x : Reader, x.scope = s → x.course = .reading l kind slot stage →
      x.run (List.replicate n (.own : ReaderMove α ε)) =
        x.comesTo (Scope.stop (s.readFrom l kind slot stage)) := by
  induction s, l, kind, slot, stage using Scope.readFrom.induct with
  | case1 s l kind slot stage p s' step =>
    refine ⟨1, fun x here reading => ?_⟩
    rw [run_alone_succ, goOn_of_reading reading, here, Scope.readFrom_eq, step]
    rfl
  | case2 s l kind slot stage l' kind' slot' stage' s' step ih =>
    obtain ⟨n, comes⟩ := ih
    refine ⟨n + 1, fun x here reading => ?_⟩
    rw [run_alone_succ, goOn_of_reading reading, here, Scope.readFrom_eq, step]
    exact comes (x.comesTo (.reading l' kind' slot' stage', s')) rfl rfl

/-- A read that is taken up alone comes to the end of the segment that the call would run. -/
theorem comesTo_stop_of_standing {e : Event} {rest : Pending} (stands : x.course = .stopped (.standing e rest)) :
    ∃ n, x.run (List.replicate n (.own : ReaderMove α ε)) = x.comesTo (Scope.stop (x.scope.resume rest)) := by
  rw [← Scope.conclude_takeUp]
  have once := goOn_of_standing stands
  cases taken : x.scope.takeUp rest with
  | mk course s =>
    rw [taken] at once
    cases course with
    | stopped p => exact ⟨1, once⟩
    | reading l kind slot stage =>
      obtain ⟨n, comes⟩ := comesTo_stop_of_reading (α := α) (ε := ε) s l kind slot stage
      refine ⟨n + 1, ?_⟩
      rw [run_alone_succ, once]
      exact comes (x.comesTo (.reading l kind slot stage, s)) rfl rfl

end Reader

/-! ## Calls are readers -/

namespace Scope

variable {s : Scope} {l : Location} {kind : Kind}

theorem load_of_unheld (active : s.context.phase = .active)
    (unheld : s.context.writes.stamp? (s.runtime.table.slotOf l) = none) :
    s.load l kind = s.loadFree l kind (s.runtime.table.slotOf l) := by
  have free : s.obstacle? = none := by rw [obstacle?, active]
  unfold load
  rw [free]
  dsimp only
  rw [unheld]

/-- Looking at the lock first makes no difference to a read that looks at it anyway. -/
theorem read_of_unheld (active : s.context.phase = .active)
    (unheld : s.context.writes.stamp? (s.runtime.table.slotOf l) = none) :
    s.read l kind = s.loadFree l kind (s.runtime.table.slotOf l) := by
  rw [read, probe_of_active active]
  by_cases free : (s.runtime.table.word (s.runtime.table.slotOf l)).isFreeFor s.context.owner = true
  · rw [if_pos free]
    exact load_of_unheld active unheld
  · rw [if_neg free, loadFree_eq, LockTable.check_of_lt (LockTable.slotOf_lt_size _ l)]
    cases word : s.runtime.table.word (s.runtime.table.slotOf l) with
    | free stamp =>
      rw [word] at free
      exact absurd rfl free
    | held holder =>
      have other : holder ≠ s.context.owner := by
        rintro rfl
        rw [word] at free
        exact free (decide_eq_true rfl)
      dsimp only
      rw [if_neg other]
      rfl

theorem perform_of_unheld {request : Request} (reads : request = .load l kind ∨ request = .read l kind)
    (active : s.context.phase = .active)
    (unheld : s.context.writes.stamp? (s.runtime.table.slotOf l) = none) :
    s.perform request = s.loadFree l kind (s.runtime.table.slotOf l) := by
  rcases reads with rfl | rfl
  · exact load_of_unheld active unheld
  · exact read_of_unheld active unheld

end Scope

theorem Worker.advance_of_client {w : Worker} {p : Progress × Scope} (client : p.1.isOfBlock = false) :
    w.advance (α := α) (ε := ε) false p =
      (p.1.response, p.2.runtime, { w with context := p.2.context, pending := p.1.rest? }) := by
  obtain ⟨a, s⟩ := p
  cases a with
  | commitLost => cases client
  | _ => rfl

/-- A call in a system is the read of the reader, which stands as the call does.  The worker in the system has come as
    far as the reader, and all else is the same. -/
structure Reader.Mirrors (x : Reader) (owner : OwnerId) (w : Worker) (s : System) (p : Progress) : Prop where
  course : x.course = .stopped p
  client : p.isOfBlock = false
  beside : System.Beside owner x.system s
  there : s.worker? owner = some { w with context := x.context, pending := p.rest? }

/-- A segment of the call is the reader going on alone. -/
theorem Reader.mirrors_of_segment {x : Reader} {s : System} {owner : OwnerId} {w w₁ : Worker}
    (beside : System.Beside owner x.system s) (there : s.worker? owner = some w₁) (blocks : w₁.blocks = w.blocks)
    {action : WorkerAction α ε} {p : Progress × Scope} (segment : w₁.step s.runtime action = w₁.advance false p)
    (client : p.1.isOfBlock = false) :
    (s.step (.act owner action)).1 = p.1.response ∧
      (x.comesTo (Scope.stop p)).Mirrors owner w (s.step (.act owner action)).2 p.1 := by
  have stepped := System.act_eq there action
  rw [segment, Worker.advance_of_client client] at stepped
  rw [System.step, stepped]
  have same : System.Beside owner (x.comesTo (Scope.stop p)).system { s with runtime := p.2.runtime } :=
    ⟨rfl, beside.announced, beside.others⟩
  refine ⟨rfl, rfl, client, same.trans (System.beside_setWorker s owner _ _), ?_⟩
  rw [System.worker?_setWorker, if_pos rfl, ← blocks]
  rfl

/-- A call that is taken up is the reader going on alone. -/
theorem Reader.Mirrors.resume {x : Reader} {s : System} {owner : OwnerId} {w : Worker} {e : Event} {rest : Pending}
    (mirrors : x.Mirrors owner w s (.standing e rest)) :
    ∃ n p, (s.step (.act owner .resume : Action α ε)).1 = p.response ∧
      (x.run (List.replicate n (.own : ReaderMove α ε))).Mirrors owner w
        (s.step (.act owner .resume : Action α ε)).2 p := by
  have client : rest.isOfBlock = false := (Bool.or_eq_false_iff.mp mirrors.client).2
  have goesOn : rest.isGiveUp = false := by
    cases rest with
    | giveUp => cases client
    | _ => rfl
  have segment := (Worker.step_resume_of_waiting (α := α) (ε := ε) (r := s.runtime)
    (w := { w with context := x.context, pending := some rest }) rfl).trans (Worker.resume_eq_advance goesOn)
  rw [client] at segment
  obtain ⟨told, after⟩ :=
    mirrors_of_segment (w := w) mirrors.beside mirrors.there rfl segment (Scope.isOfBlock_resume client)
  obtain ⟨n, comes⟩ := comesTo_stop_of_standing (α := α) (ε := ε) mirrors.course
  refine ⟨n, _, told, ?_⟩
  rw [comes, Reader.scope, ← mirrors.beside.runtime]
  exact after

namespace Chronicle

variable {t : Chronicle} {owner : OwnerId} {w : Worker} {l : Location} {kind : Kind} {request : Request}
  {sofar : List (Action α ε)} {response : Response α ε}

/-- A call that reads a field is a reader that others act inside of at its events only. -/
theorem reader_of_call (call : Call owner (.call request) t sofar response)
    (reads : request = .load l kind ∨ request = .read l kind) (here : t.system.worker? owner = some w)
    (idle : w.isBusy = false) (active : w.context.phase = .active)
    (unheld : w.context.writes.stamp? (t.system.runtime.table.slotOf l) = none) :
    ∃ (moves : List (ReaderMove α ε)) (p : Progress),
      ReaderMove.others moves = sofar.filter (·.owner? ≠ some owner) ∧ response = p.response ∧
        ((Reader.start t.system w.context l kind).run moves).Mirrors owner w (t.run sofar).system p := by
  have own : ∀ action : WorkerAction α ε,
      ([.act owner action] : List (Action α ε)).filter (·.owner? ≠ some owner) = [] := fun action => by
    simp [Action.owner?]
  induction call with
  | begin =>
    have performed : (w.scope t.system.runtime).perform request = _ :=
      Scope.perform_of_unheld (s := w.scope t.system.runtime) reads active unheld
    have client := Scope.isOfBlock_perform (s := w.scope t.system.runtime) request
    obtain ⟨n, comes⟩ := Reader.comesTo_stop_of_reading (α := α) (ε := ε) (w.scope t.system.runtime) l kind
      (t.system.runtime.table.slotOf l) .look
    obtain ⟨told, mirrors⟩ := Reader.mirrors_of_segment (x := Reader.start t.system w.context l kind)
      (s := t.system) ⟨rfl, rfl, fun _ _ => rfl⟩ here rfl (Worker.step_call_of_idle idle request) client
    refine ⟨List.replicate n .own, _, by rw [own, ReaderMove.others_alone], told, ?_⟩
    rw [run_singleton, system_step, comes (Reader.start t.system w.context l kind) rfl rfl]
    exact performed ▸ mirrors
  | beside a call standing other ih =>
    obtain ⟨moves, p, same, told, mirrors⟩ := ih
    refine ⟨moves ++ [.other a], p, ?_, told, ?_⟩
    · rw [List.filter_append, ReaderMove.others_append, same]
      simp [other]
    · rw [Reader.run_snoc, run_snoc, system_step]
      exact ⟨mirrors.course, mirrors.client, (mirrors.beside.step other).2,
        (System.worker?_step_of_ne other).trans mirrors.there⟩
  | @resume sofar response call standing ih =>
    obtain ⟨moves, p, same, told, mirrors⟩ := ih
    cases p with
    | standing e rest =>
      obtain ⟨n, p, told, mirrors'⟩ := mirrors.resume (α := α) (ε := ε)
      refine ⟨moves ++ List.replicate n .own, p, ?_, told, ?_⟩
      · rw [List.filter_append, own, ReaderMove.others_append, ReaderMove.others_alone, same]
      · rw [Reader.run_append, run_snoc, system_step]
        exact mirrors'
    | _ =>
      rw [told] at standing
      cases standing

end Chronicle

end TransactionalMemory
