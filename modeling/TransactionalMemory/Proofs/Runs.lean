import TransactionalMemory.Proofs.Steps
import TransactionalMemory.Proofs.Systems

/-! # Every run keeps the invariant

Within the limits of the machine, every step of a system is one of the changes that keep its invariant
(`Chronicle.Coherent.change_step`), whoever takes it and in whatever order.  By induction the invariant
holds after every run (`Chronicle.coherent_run`).
-/

namespace TransactionalMemory

variable {α ε : Type} {allowed : Mode → Prop} {m₀ : Memory}

/-! ## Every step is a change -/

theorem Scope.phase_publish (s : Scope) : s.publish.2.context.phase = s.context.phase := by
  unfold publish
  dsimp only
  split
  · rfl
  · split <;> rfl

theorem Runtime.allocateOwner_eq {r : Runtime} (pos : 0 < r.nextOwner) (small : r.nextOwner < lockBit) :
    r.allocateOwner = (.ok ⟨r.nextOwner⟩, { r with nextOwner := r.nextOwner + 1 }) := by
  have fits : r.nextOwner + 1 < wordRange := by
    unfold lockBit at small
    simp only [wordRange]
    omega
  have valid : (r.nextOwner = 0 || decide (lockBit ≤ r.nextOwner)) = false := by
    simp only [Bool.or_eq_false_iff, decide_eq_false_iff_not]
    omega
  simp [allocateOwner, valid, Nat.mod_eq_of_lt fits]

theorem Window.of_new? {capacity : Nat} {window : Window} (new : Window.new? capacity = .ok window) :
    window.capacity = capacity ∧ window.entries = [] := by
  unfold Window.new? at new
  split at new
  · cases new
  · split at new
    · cases new
    · cases new
      exact ⟨rfl, rfl⟩

namespace Chronicle

variable {t : Chronicle} {owner : OwnerId}

namespace Coherent

theorem act (h : t.Coherent allowed m₀) {action : WorkerAction α ε}
    (exist : ∀ l v, action = .call (.write l v) → t.system.runtime.memory.Has l)
    (may : ∀ block mode, action = .call (.start block mode) ∨ action = .enter block mode → allowed mode)
    (small : t.system.runtime.clock.now + 1 < lockBit) :
    Change allowed t false (t.step (.act owner action)) := by
  cases here : t.system.worker? owner with
  | none =>
    have same : t.step (.act owner action) = t := by simp only [step, here]
    rw [same]
    exact .none
  | some w =>
    have seated := h.seats owner w here
    have steps : Steps allowed (t.seat owner w) action (w.step t.system.runtime action) :=
      seated.sound.step_moves seated.modes exist may small
    rw [step_act here]
    generalize w.step t.system.runtime action = out at steps
    -- All that the step did is in the moves of this one worker.
    refine .moved owner w _ ⟨here, steps.moves, rfl, rfl, rfl, fun o other => if_neg other,
      ?_, rfl, ?_, ?_⟩
    · intro o other
      exact System.worker?_setWorker.trans (if_neg (Ne.symm other))
    · intro w' there
      rw [System.worker?_setWorker, if_pos rfl] at there
      cases there
      refine ⟨?_, steps.modes⟩
      simp [seat, System.setWorker, Seat.next]
    · intro none
      rw [System.worker?_setWorker, if_pos rfl] at none
      cases none

theorem drop (h : t.Coherent allowed m₀) (owner : OwnerId) :
    Change allowed t false { t with system := (t.system.drop (α := α) (ε := ε) owner).2 } := by
  simp only [System.drop]
  split
  · exact .none
  · next w here =>
    split
    · exact .none
    · next idle =>
      have seated := h.seats owner w here
      have free : (t.seat owner w).pending = none := by
        simp only [Bool.or_eq_true, not_or, Bool.not_eq_true] at idle
        exact Worker.free_of_not_isBusy idle.1
      obtain ⟨s, rolled, inactive, _, moves⟩ :=
        seated.sound.rollback_moves (by rw [free]; exact id)
      replace rolled : (w.scope t.system.runtime).rollback = (.ok (), s) := rolled
      have published := Leads.publish (seated.sound.moves moves) free
      have phase := Scope.phase_publish s
      replace published := published.moves
      rw [rolled]
      -- Whether the counters can be handed over makes no difference to who is left.
      have left : ∀ {result : Except Fault Unit} {s' : Scope}, s.publish = (result, s') →
          Change allowed t false { t with system := ⟨s'.runtime, t.system.workers.erase owner.id,
            t.system.announced⟩ } := by
        intro result s' publishes
        rw [publishes] at phase
        rw [show Seat.scope _ = s from rfl, publishes] at published
        refine .moved owner w _ ⟨here, moves.trans published, ?_, rfl, rfl, fun o other => rfl,
          ?_, rfl, ?_, ?_⟩
        · cases result <;> rfl
        · intro o other
          exact (System.worker?_erase _).trans (if_neg (Ne.symm other))
        · intro w' there
          rw [System.worker?_erase, if_pos rfl] at there
          cases there
        · intro none
          cases result <;> exact fun active => inactive (phase ▸ active)
      dsimp only
      split
      · next f s' publishes => exact left publishes
      · next s' publishes => exact left publishes

theorem announce (pos : 0 < t.system.runtime.nextOwner)
    (small : t.system.runtime.nextOwner < lockBit) :
    Change allowed t true { t with system := (t.system.announce (α := α) (ε := ε)).2 } := by
  simp only [System.announce]
  rw [Runtime.allocateOwner_eq pos small]
  exact .announced

theorem register (owner : OwnerId) :
    Change allowed t false { t with system := (t.system.register (α := α) (ε := ε) owner).2 } := by
  unfold System.register
  split
  · next member =>
    dsimp only
    split
    · exact .withdrawn owner
    · next window opened =>
      obtain ⟨capacity, empty⟩ := Window.of_new? opened
      exact .registered owner window member capacity empty
  · exact .none

theorem change_step (h : t.Coherent allowed m₀) {a : Action α ε}
    (exist : ∀ l ∈ a.target?, t.system.runtime.memory.Has l) (may : ∀ mode ∈ a.mode?, allowed mode)
    (small : t.system.runtime.clock.now + 1 < lockBit) (pos : 0 < t.system.runtime.nextOwner)
    (ids : a.isAnnounce = true → t.system.runtime.nextOwner < lockBit) :
    Change allowed t a.isAnnounce (t.step a) := by
  cases a with
  | announce => exact announce pos (ids rfl)
  | register owner => exact register owner
  | drop owner => exact h.drop owner
  | act owner action =>
    refine h.act ?_ ?_ small
    · intro l v call
      subst call
      exact exist l rfl
    · intro block mode begins
      cases begins with
      | inl call =>
        subst call
        exact may mode rfl
      | inr enter =>
        subst enter
        exact may mode rfl

end Coherent

end Chronicle

/-! ## The start of a run -/

theorem Runtime.of_new? {settings : Settings} {r : Runtime} (new : Runtime.new? settings = .ok r) :
    r.settings = settings ∧ r.table.touched = ∅ ∧ r.clock.now = 0 ∧ r.nextOwner = 1 ∧
      0 < settings.window := by
  unfold Runtime.new? at new
  split at new
  · cases new
  · next valid =>
    split at new
    · next table made =>
      cases new
      refine ⟨rfl, ?_, rfl, rfl, ?_⟩
      · unfold LockTable.new? at made
        split at made
        · split at made
          · cases made
            rfl
          · cases made
        · cases made
      · unfold Settings.validate at valid
        split at valid
        · cases valid
        · split at valid
          · cases valid
          · exact Nat.pos_of_ne_zero ‹_›
    · cases new

theorem Runtime.published_of_new? {settings : Settings} {r : Runtime} (new : Runtime.new? settings = .ok r) :
    r.published = {} := by
  unfold Runtime.new? at new
  split at new
  · cases new
  · split at new
    · cases new
      rfl
    · cases new

theorem LockTable.word_of_untouched {table : LockTable} (untouched : table.touched = ∅) (slot : Nat) :
    table.word slot = .free 0 := by
  simp [word, untouched]

theorem Ledger.start {settings : Settings} {r : Runtime} (new : Runtime.new? settings = .ok r)
    (m : Memory) : Ledger m { r with memory := m } [] where
  ordered := .nil
  stamped := List.forall_mem_nil _
  logs := List.forall_mem_nil _
  words := rfl
  shape _ := rfl
  free slot stamp word := by
    rw [LockTable.word_of_untouched (Runtime.of_new? new).2.1] at word
    cases word
    rfl

theorem Annals.start {now : Nat} : Annals allowed m₀ now [] [] where
  may := List.forall_mem_nil _
  executed := List.forall_mem_nil _
  replayed _ _ _ split := absurd split.symm (List.append_ne_nil_of_right_ne_nil _ nofun)
  readers := List.forall_mem_nil _
  guards _ _ _ split := absurd split.symm (List.append_ne_nil_of_right_ne_nil _ nofun)

theorem Chronicle.Coherent.start {settings : Settings} {r : Runtime}
    (new : Runtime.new? settings = .ok r) (m : Memory) : (Chronicle.start r m).Coherent allowed m := by
  obtain ⟨same, table, clock, -, window⟩ := Runtime.of_new? new
  have nobody : ∀ o, (Chronicle.start r m).system.worker? o = none := fun o => by
    simp [Chronicle.start, System.worker?]
  have free := LockTable.word_of_untouched table
  exact
    { ledger := .start new m
      limit := by
        rw [show (Chronicle.start r m).system.runtime.clock.now = 0 from clock]
        decide
      annals := .start
      room := same ▸ window
      seats := fun o w there => by
        rw [nobody] at there
        cases there
      strangers := fun o _ slot held => by
        rw [show (Chronicle.start r m).system.runtime.table.word slot = .free 0 from free slot] at held
        cases held
      known := fun o w there => by
        rw [nobody] at there
        cases there
      expected := List.forall_mem_nil _
      distinct := .nil }

/-! ## Whole runs -/

namespace WithinLimits

variable {s : System} {actions rest : List (Action α ε)}

theorem of_append (h : WithinLimits s (actions ++ rest)) : WithinLimits s actions where
  fields a member := h.fields a (List.mem_append_left _ member)
  clock n le := by
    have clock := h.clock n (by rw [List.length_append]; exact Nat.le_add_right_of_le le)
    rwa [List.take_append_of_le_length le] at clock
  owners := by
    have owners := h.owners
    rw [List.countP_append] at owners
    exact Nat.lt_of_le_of_lt (Nat.le_add_right _ _) owners

end WithinLimits

namespace Chronicle

variable {settings : Settings} {r : Runtime} {m : Memory}

/-- The next action of a run within its limits is a change. -/
theorem change_next {t : Chronicle} {actions : List (Action α ε)} {a : Action α ε}
    (here : t = (start r m).run actions) (h : t.Coherent allowed m)
    (ids : t.system.runtime.nextOwner = actions.countP Action.isAnnounce + 1)
    (limits : WithinLimits (start r m).system (actions ++ [a])) (may : ∀ mode ∈ a.mode?, allowed mode) :
    Change allowed t a.isAnnounce (t.step a) := by
  have last : a ∈ actions ++ [a] := List.mem_append_right _ (List.mem_singleton_self a)
  have clock := limits.clock actions.length (by simp)
  have owners := limits.owners
  rw [List.take_left, ← system_run, ← here] at clock
  rw [List.countP_append, List.countP_singleton] at owners
  refine h.change_step ?_ may (by omega) (by omega) ?_
  · intro l target
    exact (h.ledger.shape.has l).mpr (limits.fields a last l target)
  · intro own
    rw [if_pos own] at owners
    omega

/-- Within its limits, a run keeps the invariant and the settings, and every owner id belongs to an
    announcement. -/
theorem coherent_run (new : Runtime.new? settings = .ok r) {actions : List (Action α ε)}
    (limits : WithinLimits (start r m).system actions)
    (may : ∀ a ∈ actions, ∀ mode ∈ a.mode?, allowed mode) :
    ((start r m).run actions).Coherent allowed m ∧
      ((start r m).run actions).system.runtime.nextOwner = actions.countP Action.isAnnounce + 1 ∧
      ((start r m).run actions).system.runtime.settings = settings := by
  induction actions using List.reverseRecOn with
  | nil =>
    obtain ⟨same, -, -, first, -⟩ := Runtime.of_new? new
    exact ⟨.start new m, first, same⟩
  | append_singleton actions a ih =>
    obtain ⟨coherent, ids, settings⟩ := ih limits.of_append fun b member => may b (List.mem_append_left _ member)
    have change := change_next rfl coherent ids limits
      (may a (List.mem_append_right _ (List.mem_singleton_self a)))
    rw [run_snoc]
    refine ⟨coherent.change change, ?_, change.settings.trans settings⟩
    rw [change.nextOwner, ids, List.countP_append, List.countP_singleton]
    cases a.isAnnounce <;> simp

theorem coherent_run_any (new : Runtime.new? settings = .ok r) {actions : List (Action α ε)}
    (limits : WithinLimits (start r m).system actions) :
    ((start r m).run actions).Coherent (fun _ => True) m ∧
      ((start r m).run actions).system.runtime.nextOwner = actions.countP Action.isAnnounce + 1 ∧
      ((start r m).run actions).system.runtime.settings = settings :=
  coherent_run new limits fun _ _ _ _ => trivial

/-- What every change keeps is kept by the rest of a run. -/
theorem run_rest (new : Runtime.new? settings = .ok r) (Kept : Chronicle → Prop)
    (kept : ∀ {t t' : Chronicle} {new : Bool}, t.Coherent (fun _ => True) m →
      Change (fun _ => True) t new t' → Kept t → Kept t')
    (before after : List (Action α ε)) (limits : WithinLimits (start r m).system (before ++ after))
    (first : Kept ((start r m).run before)) : Kept ((start r m).run (before ++ after)) := by
  induction after using List.reverseRecOn with
  | nil =>
    rw [List.append_nil]
    exact first
  | append_singleton after a ih =>
    rw [← List.append_assoc] at limits ⊢
    obtain ⟨coherent, ids, -⟩ := coherent_run_any new limits.of_append
    have change := change_next rfl coherent ids limits fun _ _ => trivial
    rw [run_snoc _ (before ++ after)]
    exact kept coherent change (ih limits.of_append)

end Chronicle

/-! ## A small runtime -/

/-- A runtime with sixteen slots. -/
def smallRuntime : Runtime where
  settings := { tableBits := 4 }
  table := { bits := 4, bits_pos := by decide, bits_lt := by decide }

theorem smallRuntime_new : Runtime.new? { tableBits := 4 } = .ok smallRuntime := rfl

/-- One object of two fields. -/
def pair : Memory := Memory.insert {} 16 #[1, 2]

end TransactionalMemory
