import Mathlib.Algebra.GroupWithZero.Nat
import TransactionalMemory.Proofs.Occurrences

/-! # Statistics

Counters are kept by every context for itself, handed over to the runtime when the context is asked to, and
once more when it is dropped.  So no place has the counts of a whole run, but together they do: the counters
that the runtime was handed and those of all contexts add up to what has happened (`counters_add_up`).

What has happened in a run is told by an account (`Account`), which looks on from outside: it knows how many
attempts each context has begun and the mode of the last one, and keeps a record of each commit, of each abort
for a conflict and of each block that has given up.
-/

namespace TransactionalMemory

variable {α ε : Type}

/-! ## The counters of a system -/

namespace System

variable {s s' : System} {owner : OwnerId} {w : Worker}

/-- A counter of the runtime, with those of all contexts. -/
def total (s : System) (k : Counter) : Nat :=
  s.runtime.published.get k + (s.workers.toList.map fun p => p.2.context.tally.get k).sum

/-- The counters of all contexts but the one of an owner. -/
def beside (s : System) (owner : OwnerId) (k : Counter) : Nat :=
  ((s.workers.erase owner.id).toList.map fun p => p.2.context.tally.get k).sum

theorem nodup_toList (workers : Std.TreeMap Nat Worker) : workers.toList.Nodup :=
  workers.distinct_keys_toList.imp fun differs same =>
    differs (Nat.compare_eq_eq.mpr (congrArg Prod.fst same))

/-- Workers are listed in an order that does not matter. -/
theorem toList_perm {workers workers' : Std.TreeMap Nat Worker}
    (same : ∀ id : Nat, workers'[id]? = workers[id]?) : workers'.toList.Perm workers.toList := by
  rw [List.perm_ext_iff_of_nodup (nodup_toList _) (nodup_toList _)]
  rintro ⟨id, w⟩
  simp only [Std.TreeMap.mem_toList_iff_getElem?_eq_some, same]

theorem toList_perm_of_getElem? {workers : Std.TreeMap Nat Worker} {id : Nat} (here : workers[id]? = some w) :
    workers.toList.Perm ((id, w) :: (workers.erase id).toList) := by
  have absent : (id, w) ∉ (workers.erase id).toList := by
    simp [Std.TreeMap.mem_toList_iff_getElem?_eq_some]
  rw [List.perm_ext_iff_of_nodup (nodup_toList _) (List.nodup_cons.mpr ⟨absent, nodup_toList _⟩)]
  rintro ⟨id', w'⟩
  rw [List.mem_cons, Std.TreeMap.mem_toList_iff_getElem?_eq_some,
    Std.TreeMap.mem_toList_iff_getElem?_eq_some, Std.TreeMap.getElem?_erase]
  by_cases same : id = id'
  · subst same
    simp [here, eq_comm]
  · simp [same, Ne.symm same]

theorem total_of_worker (here : s.worker? owner = some w) (k : Counter) :
    s.total k = (w.scope s.runtime).total k + s.beside owner k := by
  have sum := ((toList_perm_of_getElem? here).map fun p => p.2.context.tally.get k).sum_nat
  rw [total, sum, List.map_cons, List.sum_cons, ← Nat.add_assoc]
  rfl

theorem total_of_nobody (nobody : s.worker? owner = none) (k : Counter) :
    s.total k = s.runtime.published.get k + s.beside owner k := by
  have absent : ∀ id : Nat, s.workers[id]? = (s.workers.erase owner.id)[id]? := by
    intro id
    rw [Std.TreeMap.getElem?_erase]
    split
    · next same =>
      obtain rfl := Nat.compare_eq_eq.mp same
      exact nobody
    · rfl
  rw [total, ((toList_perm absent).map _).sum_nat, beside]

theorem beside_congr (others : ∀ o, o ≠ owner → s'.worker? o = s.worker? o) (k : Counter) :
    s'.beside owner k = s.beside owner k := by
  have same : ∀ id : Nat, (s'.workers.erase owner.id)[id]? = (s.workers.erase owner.id)[id]? := by
    intro id
    rw [Std.TreeMap.getElem?_erase, Std.TreeMap.getElem?_erase]
    split
    · rfl
    · next differs =>
      refine others ⟨id⟩ fun equal => differs ?_
      exact Nat.compare_eq_eq.mpr (congrArg OwnerId.id equal.symm)
  exact ((toList_perm same).map _).sum_nat

/-- A worker that is set counts instead of the one that was there. -/
theorem total_setWorker (s : System) (owner : OwnerId) (w : Worker) (k : Counter) :
    (s.setWorker owner w).total k = (w.scope s.runtime).total k + s.beside owner k := by
  have there : (s.setWorker owner w).worker? owner = some w := worker?_setWorker.trans (if_pos rfl)
  have others : ∀ o, o ≠ owner → (s.setWorker owner w).worker? o = s.worker? o := fun o other =>
    worker?_setWorker.trans (if_neg (Ne.symm other))
  rw [total_of_worker there, beside_congr others]
  rfl

/-! ### Steps -/

/-- A step of a worker adds to the counters what it adds to its own and to those of the runtime. -/
theorem total_act (here : s.worker? owner = some w) (action : WorkerAction α ε) (k : Counter) :
    (s.act owner action).2.total k =
      (Worker.landing (w.step s.runtime action)).total k + s.beside owner k := by
  rw [act_eq here]
  exact total_setWorker { s with runtime := (w.step s.runtime action).2.1 } owner _ k

/-- A context that is dropped hands its counters over before it goes. -/
theorem Orderly.total_drop (h : s.Orderly) (room : ∀ k, s.total k < wordRange) (owner : OwnerId) (k : Counter) :
    (s.drop (α := α) (ε := ε) owner).2.total k = s.total k := by
  unfold System.drop
  split
  · rfl
  · next w here =>
    split
    · rfl
    · obtain ⟨scope, rolled, -⟩ := (h.holding owner w here).rollback
      have uncounted := (w.scope s.runtime).uncounted_rollback
      rw [rolled] at uncounted
      have fits : ∀ k, scope.total k + ([] : List Occurrence).countP (Counter.counts k) < wordRange := by
        intro k
        have room := room k
        rw [total_of_worker here] at room
        rw [uncounted.total, List.countP_nil]
        omega
      -- What is left of the counters of the context, once they are handed over, is nothing.
      have handed : scope.publish.2.runtime.published.get k = (w.scope s.runtime).total k := by
        have counted := scope.counted_publish.total fits k
        obtain ⟨published, same⟩ := scope.publish_eq
        rw [same] at counted ⊢
        rw [← uncounted.total]
        simpa [Scope.total] using counted
      -- Whether the counters could be handed over or not, the context is gone.
      have gone : ∀ {scope' : Scope}, scope'.runtime.published.get k = (w.scope s.runtime).total k →
          total ⟨scope'.runtime, s.workers.erase owner.id, s.announced⟩ k = s.total k := by
        intro scope' published
        rw [total_of_worker here, ← published]
        rfl
      rw [rolled]
      dsimp only
      split
      · next failed =>
        rw [failed] at handed
        exact gone handed
      · next done =>
        rw [done] at handed
        exact gone handed

theorem total_announce (s : System) (k : Counter) : (s.announce (α := α) (ε := ε)).2.total k = s.total k := by
  unfold announce Runtime.allocateOwner
  dsimp only
  split <;> next same => split at same <;> cases same; rfl

theorem Orderly.total_register (h : s.Orderly) (owner : OwnerId) (k : Counter) :
    (s.register (α := α) (ε := ε) owner).2.total k = s.total k := by
  unfold System.register
  split
  · next member =>
    dsimp only
    split
    · rfl
    · next window _ =>
      have counted := total_setWorker (s.withdraw owner) owner { context := { owner, window } } k
      rw [show (s.withdraw owner).beside owner k = s.beside owner k from rfl] at counted
      rw [total_of_nobody (h.expected owner member).2]
      refine counted.trans (congrArg (· + s.beside owner k) ?_)
      simp [Scope.total, Worker.scope, withdraw]
  · rfl

/-- Only steps of workers count anything. -/
theorem Orderly.total_step (h : s.Orderly) (room : ∀ k, s.total k < wordRange) {a : Action α ε}
    (other : ∀ o action, a = .act o action → s.worker? o = none) (k : Counter) :
    (s.step a).2.total k = s.total k := by
  cases a with
  | announce => exact s.total_announce k
  | register owner => exact h.total_register owner k
  | drop owner => exact h.total_drop room owner k
  | act owner action =>
    have nobody := other owner action rfl
    simp only [System.step, System.act, nobody]

end System

/-! ## Accounts -/

/-- Something that has occurred in an attempt of a context. -/
structure Happening where
  owner : OwnerId
  attempt : Nat
  occurrence : Occurrence
  deriving DecidableEq, Repr

/-- A system, and what has happened on it. -/
structure Account where
  system : System
  /-- How many attempts a context has begun. -/
  begun : OwnerId → Nat := fun _ => 0
  /-- The mode of the last one. -/
  mode : OwnerId → Mode := fun _ => .regular
  happened : List Happening := []

namespace Account

/-- A runtime over the given memory, on which nothing has happened. -/
def start (r : Runtime) (m : Memory) : Account := { system := { runtime := { r with memory := m } } }

def step (t : Account) (a : Action α ε) : Account :=
  let system := (t.system.step a).2
  match a with
  | .act owner action =>
    match t.system.worker? owner with
    | none => { t with system }
    | some w =>
      let out := w.step t.system.runtime action
      let begins := w.begins? action out.1
      { system
        begun := fun o => if o = owner ∧ begins.isSome then t.begun o + 1 else t.begun o
        mode := fun o => if o = owner then begins.getD (t.mode o) else t.mode o
        happened := t.happened ++
          (w.occurrences t.system.runtime (t.mode owner) action out).map (⟨owner, t.begun owner, ·⟩) }
  | _ => { t with system }

def run (t : Account) (actions : List (Action α ε)) : Account := actions.foldl step t

/-- How often something has happened that a counter counts. -/
def count (t : Account) (k : Counter) : Nat := t.happened.countP fun h => k.counts h.occurrence

/-- The attempts that have ended in a commit or an abort, by context and number. -/
def ended (t : Account) : List (OwnerId × Nat) :=
  (t.happened.filter (·.occurrence.isEnd)).map fun h => (h.owner, h.attempt)

theorem run_snoc (t : Account) (actions : List (Action α ε)) (a : Action α ε) :
    t.run (actions ++ [a]) = (t.run actions).step a := List.foldl_concat ..

variable {t : Account} {owner : OwnerId} {w : Worker}

theorem step_act (here : t.system.worker? owner = some w) (action : WorkerAction α ε) :
    t.step (.act owner action) =
      let out := w.step t.system.runtime action
      let begins := w.begins? action out.1
      { system := (t.system.act owner action).2
        begun := fun o => if o = owner ∧ begins.isSome then t.begun o + 1 else t.begun o
        mode := fun o => if o = owner then begins.getD (t.mode o) else t.mode o
        happened := t.happened ++
          (w.occurrences t.system.runtime (t.mode owner) action out).map (⟨owner, t.begun owner, ·⟩) } := by
  simp only [step, here]
  rfl

theorem step_of_nobody {a : Action α ε} (other : ∀ o action, a = .act o action → t.system.worker? o = none) :
    t.step a = { t with system := (t.system.step a).2 } := by
  cases a with
  | act o action =>
    have nobody := other o action rfl
    simp only [step, nobody]
  | _ => rfl

@[simp] theorem system_step (t : Account) (a : Action α ε) : (t.step a).system = (t.system.step a).2 := by
  cases a with
  | act o action =>
    simp only [step]
    split <;> rfl
  | _ => rfl

/-- Keeping an account leaves the run as it is. -/
theorem system_run (t : Account) (actions : List (Action α ε)) :
    (t.run actions).system = (t.system.run actions).2 := by
  induction actions generalizing t with
  | nil => rfl
  | cons a rest ih =>
    have rest := ih (t.step a)
    rw [system_step] at rest
    exact rest

/-- A step is one of a worker that is there, or no worker has a part in it. -/
theorem act_or_nobody (t : Account) (a : Action α ε) :
    (∃ o action w, a = .act o action ∧ t.system.worker? o = some w) ∨
      ∀ o action, a = .act o action → t.system.worker? o = none := by
  by_cases acts : ∃ o action w, a = .act o action ∧ t.system.worker? o = some w
  · exact Or.inl acts
  · refine Or.inr fun o action same => ?_
    cases here : t.system.worker? o with
    | none => rfl
    | some w => exact absurd ⟨o, action, w, same, here⟩ acts

theorem kept_of_ne {a : Action α ε} {o : OwnerId} (other : ∀ action, a ≠ .act o action) :
    (t.step a).begun o = t.begun o ∧ (t.step a).mode o = t.mode o := by
  cases a with
  | act o' action =>
    have differs : o ≠ o' := by
      rintro rfl
      exact other action rfl
    simp only [step]
    split
    · exact ⟨rfl, rfl⟩
    · simp only [differs, false_and, ↓reduceIte, and_self]
  | _ => exact ⟨rfl, rfl⟩

/-! ### What is counted is what has happened -/

/-- The account has the mode of every attempt in progress, and what is left of calls aborts attempts in
    progress only. -/
structure Attuned (t : Account) : Prop where
  poised : ∀ o w, t.system.worker? o = some w → w.Poised
  mode : ∀ o w, t.system.worker? o = some w → w.context.phase = .active → t.mode o = w.context.mode

theorem Attuned.counting (attuned : t.Attuned) (orderly : t.system.Orderly)
    (here : t.system.worker? owner = some w) (action : WorkerAction α ε) :
    Worker.Counting w t.system.runtime (t.mode owner) action (w.step t.system.runtime action) :=
  Worker.counting_step (orderly.holding owner w here) (attuned.poised owner w here)
    (attuned.mode owner w here) action

theorem worker?_step_act (here : t.system.worker? owner = some w) (action : WorkerAction α ε) :
    (t.step (.act owner action)).system.worker? owner = some (w.step t.system.runtime action).2.2 := by
  rw [system_step, System.step, System.act_eq here]
  exact System.worker?_setWorker.trans (if_pos rfl)

/-- A worker after a step is what the step has made of it, or it has not taken part, or it is new. -/
theorem worker_cases (orderly : t.system.Orderly) {a : Action α ε}
    (there : (t.step a).system.worker? owner = some w) :
    (∃ action w₀, a = .act owner action ∧ t.system.worker? owner = some w₀ ∧
      w = (w₀.step t.system.runtime action).2.2) ∨
    (∀ action, a ≠ .act owner action) ∧
      (t.system.worker? owner = some w ∨ ∃ window, w = { context := { owner, window } }) := by
  by_cases own : ∃ action, a = .act owner action
  · obtain ⟨action, rfl⟩ := own
    cases here : t.system.worker? owner with
    | none =>
      simp only [system_step, System.step, System.act, here] at there
      cases there
    | some w₀ =>
      rw [worker?_step_act here] at there
      cases there
      exact Or.inl ⟨action, w₀, rfl, rfl, rfl⟩
  · have other : ∀ action, a ≠ .act owner action := fun action same => own ⟨action, same⟩
    rw [system_step] at there
    refine Or.inr ⟨other, ?_⟩
    rcases orderly.worker_cases there with here | ⟨action, -, same, -⟩ | ⟨-, window, new⟩
    · exact Or.inl here
    · exact absurd same (other action)
    · exact Or.inr ⟨window, new⟩

theorem Attuned.step (attuned : t.Attuned) (orderly : t.system.Orderly) (a : Action α ε) :
    (t.step a).Attuned where
  poised o w there := by
    rcases worker_cases orderly there with ⟨action, w₀, rfl, here, rfl⟩ | ⟨-, here | ⟨window, rfl⟩⟩
    · exact Worker.poised_step (orderly.holding o w₀ here) (attuned.poised o w₀ here) action
    · exact attuned.poised o w here
    · exact .of_free rfl
  mode o w there active := by
    rcases worker_cases orderly there with ⟨action, w₀, rfl, here, rfl⟩ | ⟨other, here | ⟨window, rfl⟩⟩
    · have counting := attuned.counting orderly here action
      have mode : (t.step (.act o action)).mode o =
          (w₀.begins? action (w₀.step t.system.runtime action).1).getD (t.mode o) := by
        rw [step_act here]
        exact if_pos rfl
      rw [mode]
      cases counting with
      | begins begun told same =>
        rw [told, same]
        rfl
      | goes plain counted goes =>
        rw [plain, Option.getD_none, attuned.mode o w₀ here (goes active)]
        exact counted.mode.symm
    · rw [(kept_of_ne other).2]
      exact attuned.mode o w here active
    · cases active

theorem count_act (here : t.system.worker? owner = some w) (action : WorkerAction α ε) (k : Counter) :
    (t.step (.act owner action)).count k = t.count k +
      (w.occurrences t.system.runtime (t.mode owner) action (w.step t.system.runtime action)).countP k.counts := by
  rw [step_act here, count, List.countP_append, List.countP_map]
  rfl

/-- If all that has happened so far has been counted, then a step counts what happens in it. -/
theorem Attuned.total_step (attuned : t.Attuned) (orderly : t.system.Orderly)
    (counted : ∀ k, t.system.total k = t.count k) {a : Action α ε}
    (room : ∀ k, (t.step a).count k < wordRange) (k : Counter) :
    (t.step a).system.total k = (t.step a).count k := by
  rcases t.act_or_nobody a with ⟨o, action, w, rfl, here⟩ | other
  · rw [system_step, System.step, System.total_act here, count_act here, ← counted k,
      System.total_of_worker here]
    cases attuned.counting orderly here action with
    | begins begun _ _ _ total nothing =>
      rw [total, nothing, List.countP_nil, Nat.add_zero]
    | goes _ counts =>
      have fits := counts.total fun k => by
        have room := room k
        rw [count_act here, ← counted k, System.total_of_worker here] at room
        omega
      rw [fits k]
      omega
  · rw [step_of_nobody other] at room ⊢
    exact (orderly.total_step (fun k => (counted k).trans_lt (room k)) other k).trans (counted k)

/-! ### No attempt ends twice -/

/-- Every attempt that has ended is recorded once, and the last attempt of a context that is active is not
    recorded yet. -/
structure Closed (t : Account) : Prop where
  once : t.ended.Nodup
  past : ∀ e ∈ t.ended, e.2 ≤ t.begun e.1 ∧
    (e.2 = t.begun e.1 → ∀ w, t.system.worker? e.1 = some w → w.context.phase ≠ .active)

theorem ended_act (here : t.system.worker? owner = some w) (action : WorkerAction α ε) :
    (t.step (.act owner action)).ended = t.ended ++
      ((w.occurrences t.system.runtime (t.mode owner) action (w.step t.system.runtime action)).filter
        (·.isEnd)).map fun _ => (owner, t.begun owner) := by
  rw [step_act here, ended, List.filter_append, List.map_append, List.filter_map, List.map_map]
  rfl

theorem begun_act (here : t.system.worker? owner = some w) (action : WorkerAction α ε) (o : OwnerId) :
    (t.step (.act owner action)).begun o =
      if o = owner ∧ (w.begins? action (w.step t.system.runtime action).1).isSome then t.begun o + 1
      else t.begun o := by
  rw [step_act here]

section

variable {t' : Account} (closed : t.Closed)
  (others : ∀ o, o ≠ owner → t'.system.worker? o = t.system.worker? o)

include closed others

/-- An attempt that begins comes after all that are recorded. -/
theorem Closed.begins (ended : t'.ended = t.ended) (later : t'.begun owner = t.begun owner + 1)
    (same : ∀ o, o ≠ owner → t'.begun o = t.begun o) : t'.Closed := by
  refine ⟨ended ▸ closed.once, fun e member => ?_⟩
  rw [ended] at member
  obtain ⟨le, past⟩ := closed.past e member
  by_cases own : e.1 = owner
  · rw [own] at le ⊢
    rw [later]
    exact ⟨Nat.le_succ_of_le le, fun last => absurd last (by omega)⟩
  · rw [same e.1 own, others e.1 own]
    exact ⟨le, past⟩

/-- An attempt that ends is active before and not after, so it has not been recorded. -/
theorem Closed.goes {w' : Worker} (same : ∀ o, t'.begun o = t.begun o)
    (here : t.system.worker? owner = some w) (there : t'.system.worker? owner = some w')
    (goes : w'.context.phase = .active → w.context.phase = .active)
    (ended : t'.ended = t.ended ∨ t'.ended = t.ended ++ [(owner, t.begun owner)] ∧
      w.context.phase = .active ∧ w'.context.phase ≠ .active) : t'.Closed := by
  have before : ∀ e ∈ t.ended, e.2 ≤ t'.begun e.1 ∧ (e.2 = t'.begun e.1 →
      ∀ w', t'.system.worker? e.1 = some w' → w'.context.phase ≠ .active) := by
    intro e member
    obtain ⟨le, past⟩ := closed.past e member
    rw [same]
    refine ⟨le, fun last w' there' => ?_⟩
    by_cases own : e.1 = owner
    · rw [own, there] at there'
      cases there'
      exact fun active => past last w (own ▸ here) (goes active)
    · rw [others e.1 own] at there'
      exact past last w' there'
  rcases ended with still | ⟨added, active, inactive⟩
  · rw [← still] at before
    exact ⟨still ▸ closed.once, before⟩
  · refine ⟨?_, fun e member => ?_⟩
    · rw [added, List.nodup_append]
      refine ⟨closed.once, List.nodup_singleton _, fun e member last isLast equal => ?_⟩
      obtain rfl := List.mem_singleton.mp isLast
      subst equal
      exact (closed.past _ member).2 rfl w here active
    · rw [added, List.mem_append, List.mem_singleton] at member
      rcases member with earlier | rfl
      · exact before e earlier
      · refine ⟨(same owner).ge, fun _ w' there' => ?_⟩
        rw [there] at there'
        cases there'
        exact inactive

end

theorem Closed.act (closed : t.Closed) (attuned : t.Attuned) (orderly : t.system.Orderly)
    (here : t.system.worker? owner = some w) (action : WorkerAction α ε) :
    (t.step (.act owner action)).Closed := by
  have others : ∀ o, o ≠ owner → (t.step (.act owner action)).system.worker? o = t.system.worker? o := by
    intro o other
    rw [system_step]
    exact System.worker?_step_of_ne fun same => other (Option.some.inj same).symm
  have ended := ended_act here action
  have begun := begun_act here action
  cases attuned.counting orderly here action with
  | begins mode told _ _ _ nothing =>
    rw [nothing, List.filter_nil, List.map_nil, List.append_nil] at ended
    refine closed.begins others ended ?_ fun o other => ?_
    · rw [begun, told]
      exact if_pos ⟨rfl, rfl⟩
    · rw [begun]
      exact if_neg fun both => other both.1
  | goes plain _ goes =>
    have same : ∀ o, (t.step (.act owner action)).begun o = t.begun o := by
      intro o
      rw [begun, plain]
      exact if_neg (by simp)
    refine closed.goes others same here (worker?_step_act here action) goes ?_
    rcases w.ends_cases t.system.runtime (t.mode owner) action (w.step t.system.runtime action) with
      none | ⟨x, one, active, inactive⟩
    · rw [none, List.map_nil, List.append_nil] at ended
      exact Or.inl ended
    · rw [one, List.map_singleton] at ended
      exact Or.inr ⟨ended, active, inactive⟩

theorem Closed.step (closed : t.Closed) (attuned : t.Attuned) (orderly : t.system.Orderly) (a : Action α ε) :
    (t.step a).Closed := by
  rcases t.act_or_nobody a with ⟨o, action, w, rfl, here⟩ | other
  · exact closed.act attuned orderly here action
  · have still := step_of_nobody other
    refine ⟨by rw [still]; exact closed.once, fun e member => ?_⟩
    have begun : (t.step a).begun e.1 = t.begun e.1 := by rw [still]
    rw [still] at member
    obtain ⟨le, past⟩ := closed.past e member
    rw [begun]
    refine ⟨le, fun last w there => ?_⟩
    rcases worker_cases orderly there with ⟨action, w₀, rfl, here, -⟩ | ⟨-, here | ⟨window, rfl⟩⟩
    · cases here.symm.trans (other _ _ rfl)
    · exact past last w here
    · nofun

/-! ### Whole runs -/

theorem count_le_step (t : Account) (a : Action α ε) (k : Counter) : t.count k ≤ (t.step a).count k := by
  rcases t.act_or_nobody a with ⟨o, action, w, rfl, here⟩ | other
  · rw [count_act here]
    exact Nat.le_add_right _ _
  · rw [step_of_nobody other]
    exact Nat.le_refl _

variable {settings : Settings} {r : Runtime}

theorem orderly_run (new : Runtime.new? settings = .ok r) (m : Memory) {actions : List (Action α ε)}
    (ids : actions.countP Action.isAnnounce + 1 < wordRange) :
    ((start r m).run actions).system.Orderly := by
  have orderly := (Chronicle.orderly_run_of_ids new m ids).1
  rw [Chronicle.system_run] at orderly
  rw [system_run]
  exact orderly

theorem closed_run (new : Runtime.new? settings = .ok r) (m : Memory) {actions : List (Action α ε)}
    (ids : actions.countP Action.isAnnounce + 1 < wordRange) :
    ((start r m).run actions).Attuned ∧ ((start r m).run actions).Closed := by
  induction actions using List.reverseRecOn with
  | nil =>
    have nobody : ∀ o, (start r m).system.worker? o = none := fun o => by simp [start, System.worker?]
    refine ⟨⟨fun o w there => ?_, fun o w there => ?_⟩, List.nodup_nil, List.forall_mem_nil _⟩
    · cases (nobody o).symm.trans there
    · cases (nobody o).symm.trans there
  | append_singleton actions a ih =>
    rw [List.countP_append] at ids
    obtain ⟨attuned, closed⟩ := ih (by omega)
    have orderly : ((start r m).run actions).system.Orderly := orderly_run new m (by omega)
    rw [run_snoc]
    exact ⟨attuned.step orderly a, closed.step attuned orderly a⟩

theorem total_run (new : Runtime.new? settings = .ok r) (m : Memory) {actions : List (Action α ε)}
    (ids : actions.countP Action.isAnnounce + 1 < wordRange)
    (room : ∀ k, ((start r m).run actions).count k < wordRange) (k : Counter) :
    ((start r m).run actions).system.total k = ((start r m).run actions).count k := by
  -- By induction on the run, for all counters at once: whether a counter overflows in a step depends on the others.
  induction actions using List.reverseRecOn generalizing k with
  | nil =>
    have published : r.published = {} := Runtime.published_of_new? new
    show r.published.get k + 0 = 0
    rw [published, Tally.get_empty]
  | append_singleton actions a ih =>
    rw [List.countP_append] at ids
    rw [run_snoc] at room ⊢
    have counted := ih (by omega) fun k => (count_le_step _ a k).trans_lt (room k)
    exact (closed_run new m (by omega)).1.total_step (orderly_run new m (by omega)) counted room k

end Account

/-- In a run of any contexts, the counters that the runtime was handed and those of all contexts that are
    there add up to what has happened: to the commits, to those of them without writes and to those of each
    declared mode, to the aborts for each conflict, and to the blocks that have given up for each reason.
    Every attempt is among the commits and the aborts once at most.

It takes no more than that the counts, and the next owner id, fit a word. -/
theorem counters_add_up {settings : Settings} {r : Runtime} (new : Runtime.new? settings = .ok r) (m : Memory)
    (actions : List (Action α ε)) (ids : actions.countP Action.isAnnounce + 1 < wordRange)
    (room : ∀ k, ((Account.start r m).run actions).count k < wordRange) :
    let t := (Account.start r m).run actions
    t.system = ((Account.start r m).system.run actions).2 ∧
      (∀ k : Counter, t.system.runtime.published.get k +
          (t.system.workers.toList.map fun p => p.2.context.tally.get k).sum =
        t.happened.countP fun h => k.counts h.occurrence) ∧
      t.ended.Nodup :=
  ⟨Account.system_run _ _, Account.total_run new m ids room, (Account.closed_run new m ids).2.once⟩

/-- The second context commits a write in a block that is declared read-only, and gives up the next block
    after a conflict of its body; the first one is aborted for the commit of the second one, asks for its
    commit again and for a rollback, hands its counters over and commits another attempt.  The second
    context is dropped. -/
theorem counters_add_up_of_two :
    let actions : List (Action Unit Unit) :=
      [.announce, .announce, .register ⟨1⟩, .register ⟨2⟩,
       .act ⟨1⟩ (.call (.start 0 .regular)), .act ⟨1⟩ (.call (.read ⟨16, 0⟩ .u64)),
       .act ⟨2⟩ (.enter 1 .readOnlyRegular), .act ⟨2⟩ (.call (.write ⟨16, 0⟩ (.u64 7))),
       .act ⟨2⟩ (.leave (.value ())), .act ⟨1⟩ (.call (.write ⟨16, 0⟩ (.u64 8))), .act ⟨1⟩ .resume,
       .act ⟨1⟩ (.call .commit), .act ⟨1⟩ (.call .rollback), .act ⟨1⟩ (.call .publish),
       .act ⟨1⟩ (.call .publish), .act ⟨2⟩ (.enter 2 .elastic),
       .act ⟨2⟩ (.leave (.conflict .lockedByOther)), .act ⟨2⟩ (.decide .stop), .act ⟨2⟩ .resume,
       .act ⟨1⟩ (.call (.start 3 .elastic)), .act ⟨1⟩ (.call .commit), .act ⟨1⟩ (.call .commit), .drop ⟨2⟩]
    let s := ((Account.start smallRuntime pair).run actions).system
    s.total .commits = 2 ∧ s.total .readOnly = 1 ∧ s.total .declaredReadOnly = 1 ∧ s.total .elastic = 1 ∧
      s.total (.aborts .writeAfterRead) = 1 ∧ s.total (.aborts .lockedByOther) = 1 ∧
      s.total .exhausted = 0 ∧ s.total .abandoned = 1 ∧ s.worker? ⟨2⟩ = none := by
  intro actions s
  have room : ∀ k, ((Account.start smallRuntime pair).run actions).count k < wordRange := by
    have few : ((Account.start smallRuntime pair).run actions).happened.length < wordRange := by
      decide +kernel
    exact fun k => List.countP_le_length.trans_lt few
  obtain ⟨-, counts, -⟩ := counters_add_up smallRuntime_new pair actions (by decide) room
  refine ⟨(counts .commits).trans ?_, (counts .readOnly).trans ?_, (counts .declaredReadOnly).trans ?_,
    (counts .elastic).trans ?_, (counts (.aborts .writeAfterRead)).trans ?_,
    (counts (.aborts .lockedByOther)).trans ?_, (counts .exhausted).trans ?_, (counts .abandoned).trans ?_, ?_⟩
  all_goals decide +kernel

end TransactionalMemory
