import TransactionalMemory.Proofs.Runs

/-! # Runs without elastic attempts are serializable

The serial execution of a run takes its commits in the order of their stamps and executes the accesses
of each, one attempt at a time, directly on memory.  Memory after the run is that of the serial
execution; an attempt that wrote reads there what it has read; and one that wrote nothing has read the
serial memory after the commits up to its bound (`regular_run_serializable`).

Logs and executions come together because each committed log is what its attempt's accesses do to
memory, whatever the memory.
-/

namespace TransactionalMemory

variable {α ε : Type}

def serial (m : Words) (commits : List Commit) : Words :=
  commits.foldl (fun m x => execute x.attempt.accesses m) m

theorem serial_eq_committed {commits : List Commit}
    (executed : ∀ x ∈ commits, ∀ m, execute x.attempt.accesses m = overlay x.context.writes.entries m)
    (m : Words) : serial m commits = committed m commits := by
  induction commits generalizing m with
  | nil => rfl
  | cons x rest ih =>
    have here : execute x.attempt.accesses m = overlay x.context.writes.entries m :=
      executed x List.mem_cons_self m
    have rest := ih (fun y member => executed y (List.mem_cons_of_mem x member))
      (execute x.attempt.accesses m)
    simp only [serial, committed, List.foldl_cons] at rest ⊢
    rw [rest, here]

/-! ## Attempts that change nothing -/

theorem execute_congr {l : Location} :
    ∀ (accesses : List Access) {m m' : Words}, m l = m' l → execute accesses m l = execute accesses m' l
  | [], _, _, same => same
  | .read _ :: rest, _, _, same => execute_congr rest same
  | .write k v :: rest, m, m', same => by
    apply execute_congr rest
    simp only [Access.perform, Words.put]
    rw [same]

theorem execute_of_written {l : Location} {v : Value} :
    ∀ {accesses : List Access}, .write l v ∈ accesses →
      ∀ m m' : Words, execute accesses m l = execute accesses m' l
  | .read q :: rest, member, m, m' => by
    have later : .write l v ∈ rest := by simpa using member
    exact execute_of_written later m m'
  | .write k u :: rest, member, m, m' => by
    cases List.mem_cons.mp member with
    | inl first =>
      cases first
      apply execute_congr rest
      simp [Access.perform]
    | inr later => exact execute_of_written later (m.put k u.encode) (m'.put k u.encode)

theorem isRead_of_execute_eq {accesses : List Access} (idle : ∀ m, execute accesses m = m) :
    ∀ a ∈ accesses, ∃ q, a = .read q := by
  intro a member
  cases a with
  | read q => exact ⟨q, rfl⟩
  | write l v =>
    -- Started on two different words, a field that is written would end with one.
    have same := execute_of_written member (fun _ => 0) fun _ => 1
    rw [idle, idle] at same
    cases same

theorem holdsIn_of_replays {m : Words} :
    ∀ {accesses : List Access}, (∀ a ∈ accesses, ∃ q, a = .read q) → Replays m accesses →
      ∀ {q : Reading}, .read q ∈ accesses → q.HoldsIn m
  | .read r :: rest, reads, replays, q, member => by
    cases List.mem_cons.mp member with
    | inl first =>
      cases first
      exact replays.1
    | inr later =>
      exact holdsIn_of_replays (fun a other => reads a (List.mem_cons_of_mem _ other)) replays.2 later
  | .write l v :: rest, reads, _, _, _ => by
    obtain ⟨q, same⟩ := reads (.write l v) List.mem_cons_self
    cases same

/-! ## Serializability -/

/-- Runs of any contexts in regular modes are serializable, in the order of the stamps. -/
theorem regular_run_serializable {settings : Settings} {r : Runtime}
    (new : Runtime.new? settings = .ok r) (m : Memory) (actions : List (Action α ε))
    (limits : WithinLimits (Chronicle.start r m).system actions)
    (regular : ∀ a ∈ actions, a.mode? ≠ some .elastic) :
    let t := (Chronicle.start r m).run actions
    t.commits.Pairwise (·.stamp < ·.stamp) ∧
    t.system.runtime.memory.words = serial m.words t.commits ∧
    (∀ before x after, t.commits = before ++ x :: after →
      Replays (serial m.words before) x.attempt.accesses) ∧
    ∀ x ∈ t.readOnly,
      x.context.lower ≤ x.context.upper ∧ x.context.upper ≤ x.stamp ∧
      x.stamp ≤ t.system.runtime.clock.now ∧
      ∀ a ∈ x.attempt.accesses, ∃ q, a = .read q ∧
        q.HoldsIn (serial m.words (t.commits.filter (·.stamp ≤ x.context.upper))) := by
  intro t
  have coherent : t.Coherent (· ≠ .elastic) m :=
    (Chronicle.coherent_run new limits fun a member mode asked (elastic : mode = .elastic) =>
      regular a member (by rw [← elastic]; exact asked)).1
  have modes := coherent.annals.may
  have executed : ∀ x ∈ t.commits, ∀ m, execute x.attempt.accesses m = overlay x.context.writes.entries m :=
    fun x member => coherent.annals.executed x member fun elastic =>
      absurd elastic (modes x (List.mem_append_left _ member))
  -- Where every log is what its accesses do, serial execution is the same as laying logs over memory.
  refine ⟨coherent.ledger.ordered, ?_, ?_, ?_⟩
  · rw [serial_eq_committed executed]
    exact coherent.ledger.words
  · intro before x after split
    have earlier : ∀ y ∈ before, y ∈ t.commits := fun y member => by
      rw [split]
      exact List.mem_append_left _ member
    rw [serial_eq_committed fun y member => executed y (earlier y member)]
    refine coherent.annals.replayed before x after split (modes x (List.mem_append_left _ ?_))
    rw [split]
    exact List.mem_append_right _ List.mem_cons_self
  · intro x member
    obtain ⟨lower, upper, past, told, replays⟩ :=
      coherent.annals.readers x member (modes x (List.mem_append_right _ member))
    have reads := isRead_of_execute_eq told.effect
    refine ⟨lower, upper, past, ?_⟩
    intro a access
    obtain ⟨q, rfl⟩ := reads a access
    refine ⟨q, rfl, ?_⟩
    rw [serial_eq_committed fun y kept => executed y (List.mem_filter.mp kept).1]
    exact holdsIn_of_replays reads replays access

/-- The second context commits between two reads of the first, which has to extend its snapshot. -/
theorem regular_run_serializable_of_two :
    let actions : List (Action Unit Unit) :=
      [.announce, .announce, .register ⟨1⟩, .register ⟨2⟩,
       .act ⟨1⟩ (.call (.start 0 .regular)), .act ⟨2⟩ (.call (.start 0 .regular)),
       .act ⟨1⟩ (.call (.read ⟨16, 0⟩ .u64)), .act ⟨2⟩ (.call (.write ⟨16, 1⟩ (.u64 7))),
       .act ⟨2⟩ (.call .commit), .act ⟨1⟩ (.call (.read ⟨16, 1⟩ .u64)), .act ⟨1⟩ .resume,
       .act ⟨1⟩ (.call (.write ⟨16, 0⟩ (.u64 8))), .act ⟨1⟩ (.call .commit),
       .act ⟨2⟩ (.call (.start 1 .readOnlyRegular)), .act ⟨2⟩ (.call (.read ⟨16, 0⟩ .u64)),
       .act ⟨2⟩ (.call .commit)]
    let t := (Chronicle.start smallRuntime pair).run actions
    t.commits.length = 2 ∧ t.readOnly.length = 1 ∧
      t.system.runtime.memory.words = serial pair.words t.commits := by
  intro actions t
  have limits : WithinLimits (Chronicle.start smallRuntime pair).system actions :=
    ⟨by decide +kernel, by decide +kernel, by decide⟩
  have serializable := regular_run_serializable smallRuntime_new pair actions limits (by decide)
  exact ⟨by decide +kernel, by decide +kernel, serializable.2.1⟩

end TransactionalMemory
