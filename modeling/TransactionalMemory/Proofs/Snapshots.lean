import TransactionalMemory.Proofs.Versions

/-! # A regular attempt sees one snapshot

At every moment of a regular attempt, and whether it will ever commit or not, all that it has read from
memory is what memory held after the commits up to its bound (`regular_attempt_consistent`).  The
invariant says so for the moment; that the bound never goes back during an attempt is about two moments
of a run, and is carried from the first to the second by `Chronicle.Passed`, for any property of a seat that lasts.
-/

namespace TransactionalMemory

variable {α ε : Type} {allowed : Mode → Prop} {m₀ : Memory}

/-! ## The bound never goes back -/

/-- The attempt has that number and a bound of at least that, or it is a later one. -/
def Seat.Beyond (d : Seat) (number upper : Nat) : Prop :=
  number < d.attempt.number ∨ number = d.attempt.number ∧ upper ≤ d.context.upper

theorem Sound.beyond_move {d d' : Seat} (h : Sound allowed m₀ d) (move : Move allowed d d')
    {number upper : Nat} (beyond : d.Beyond number upper) : d'.Beyond number upper := by
  cases move with
  | adopt candidate next waiting =>
    have grows := (h.waits candidate next waiting).grows
    exact beyond.imp id fun ⟨same, le⟩ => ⟨same, Nat.le_trans le grows⟩
  | slide => exact beyond.imp id fun ⟨same, le⟩ => ⟨same, Nat.le_trans le h.dated.upper_le⟩
  | begin =>
    left
    show number < d.attempt.number + 1
    rcases beyond with later | ⟨same, _⟩ <;> omega
  | _ => exact beyond

namespace Chronicle

/-- An owner has had a context, whose seat has the property, or which is gone for good. -/
structure Passed (t : Chronicle) (owner : OwnerId) (P : Seat → Prop) : Prop where
  known : owner.id < t.system.runtime.nextOwner
  made : owner ∉ t.system.announced
  holds : ∀ w, t.system.worker? owner = some w → P (t.seat owner w)

/-- A property of a seat that its moves keep, and the steps of others. -/
structure Lasting (allowed : Mode → Prop) (m₀ : Memory) (owner : OwnerId) (P : Seat → Prop) : Prop where
  own : ∀ {d d' : Seat}, Sound allowed m₀ d → Move allowed d d' → P d → P d'
  beside : ∀ {t t' : Chronicle} {w : Worker}, Grown t t' → t'.attempts owner = t.attempts owner →
    P (t.seat owner w) → P (t'.seat owner w)

variable {t t' : Chronicle} {owner : OwnerId} {number upper : Nat} {P : Seat → Prop}

theorem Lasting.moves (lasting : Lasting allowed m₀ owner P) {d d' : Seat} (h : Sound allowed m₀ d)
    (moves : Moves allowed d d') (holds : P d) : P d' := by
  induction moves with
  | refl => exact holds
  | tail before last ih => exact lasting.own (h.moves before) last ih

theorem lasting_beyond (allowed : Mode → Prop) (m₀ : Memory) (owner : OwnerId) (number upper : Nat) :
    Lasting allowed m₀ owner (·.Beyond number upper) where
  own h move beyond := h.beyond_move move beyond
  beside _ attempts beyond := by
    simp only [Seat.Beyond, seat, attempts] at beyond ⊢
    exact beyond

theorem Coherent.passed (h : t.Coherent allowed m₀) {w : Worker}
    (here : t.system.worker? owner = some w) (holds : P (t.seat owner w)) : t.Passed owner P where
  known := h.known owner w here
  made expected := by
    rw [(h.expected owner expected).2] at here
    cases here
  holds w' there := by
    rw [here] at there
    cases there
    exact holds

theorem Passed.change (p : t.Passed owner P) (lasting : Lasting allowed m₀ owner P)
    (h : t.Coherent allowed m₀) {new : Bool} (c : Change allowed t new t') : t'.Passed owner P := by
  have grown := h.grown_change c
  have known : owner.id < t'.system.runtime.nextOwner := by
    rw [c.nextOwner]
    exact Nat.lt_add_right _ p.known
  cases c with
  | none => exact p
  | moved mover w d moved =>
    refine ⟨known, by rw [moved.announced]; exact p.made, ?_⟩
    intro w' there
    by_cases same : owner = mover
    · subst same
      rw [(moved.self w' there).1]
      exact lasting.moves (h.seats owner w moved.here).sound moved.moves (p.holds w moved.here)
    · rw [moved.others owner same] at there
      exact lasting.beside grown (moved.attempts owner same) (p.holds w' there)
  | announced =>
    refine ⟨known, ?_, fun w there => lasting.beside grown rfl (p.holds w there)⟩
    intro member
    cases member with
    | head => exact Nat.lt_irrefl _ p.known
    | tail _ member => exact p.made member
  | registered other window member =>
    -- The owner was announced before and is not announced again, so the new context is another's.
    have differs : other ≠ owner := fun same => p.made (same ▸ member)
    refine ⟨known, fun expected => p.made (List.mem_of_mem_erase expected), ?_⟩
    intro w there
    rw [System.worker?_setWorker, if_neg differs] at there
    exact lasting.beside grown rfl (p.holds w there)
  | withdrawn other =>
    exact ⟨known, fun expected => p.made (List.mem_of_mem_erase expected),
      fun w there => lasting.beside grown rfl (p.holds w there)⟩

theorem Passed.run {settings : Settings} {r : Runtime} {m : Memory}
    (new : Runtime.new? settings = .ok r) {before : List (Action α ε)}
    (p : ((start r m).run before).Passed owner P) (lasting : Lasting (fun _ => True) m owner P)
    (after : List (Action α ε)) (limits : WithinLimits (start r m).system (before ++ after)) :
    ((start r m).run (before ++ after)).Passed owner P :=
  run_rest new (·.Passed owner P) (fun coherent change p => p.change lasting coherent change) before after limits p

end Chronicle

/-! ## One snapshot -/

/-- In a run of any contexts, a regular attempt that is active has read from a single committed memory,
    and its bound is no lower than at any earlier moment of the attempt. -/
theorem regular_attempt_consistent {settings : Settings} {r : Runtime}
    (new : Runtime.new? settings = .ok r) (m : Memory) (actions : List (Action α ε))
    (limits : WithinLimits (Chronicle.start r m).system actions) (owner : OwnerId) (w : Worker)
    (here : ((Chronicle.start r m).run actions).system.worker? owner = some w)
    (active : w.context.phase = .active) (regular : w.context.mode ≠ .elastic) :
    let t := (Chronicle.start r m).run actions
    w.context.lower ≤ w.context.upper ∧ w.context.upper ≤ t.system.runtime.clock.now ∧
    (∀ before after w', actions = before ++ after →
      ((Chronicle.start r m).run before).system.worker? owner = some w' →
      (((Chronicle.start r m).run before).attempts owner).number = (t.attempts owner).number →
      w'.context.upper ≤ w.context.upper) ∧
    t.system.runtime.memory.words = contentAt m.words t.commits t.system.runtime.clock.now ∧
    ∀ q ∈ fromMemory (t.attempts owner).accesses,
      q.HoldsIn (contentAt m.words t.commits w.context.upper) := by
  intro t
  have coherent : t.Coherent (fun _ => True) m := (Chronicle.coherent_run_any new limits).1
  have sound := (coherent.seats owner w here).sound
  refine ⟨sound.dated.lower_le, sound.dated.upper_le, ?_, coherent.ledger.contentAt_now.symm,
    (sound.snapshot active regular).consistent⟩
  intro before after w' split there same
  subst split
  -- The bound of the earlier moment is carried along the rest of the run.
  have earlier := (Chronicle.coherent_run_any new limits.of_append).1
  have passed := (earlier.passed (P := (·.Beyond _ w'.context.upper)) there (Or.inr ⟨rfl, Nat.le_refl _⟩)).run new
    (Chronicle.lasting_beyond ..) after limits
  rcases passed.holds w here with later | ⟨_, le⟩
  · exact absurd same (Nat.ne_of_lt later)
  · exact le

/-- An elastic context commits between two reads of a regular one, which then extends its snapshot. -/
theorem regular_attempt_consistent_of_two :
    let actions : List (Action Unit Unit) :=
      [.announce, .announce, .register ⟨1⟩, .register ⟨2⟩,
       .act ⟨1⟩ (.call (.start 0 .regular)), .act ⟨2⟩ (.call (.start 0 .elastic)),
       .act ⟨1⟩ (.call (.read ⟨16, 0⟩ .u64)), .act ⟨2⟩ (.call (.write ⟨16, 1⟩ (.u64 7))),
       .act ⟨2⟩ (.call .commit), .act ⟨1⟩ (.call (.read ⟨16, 1⟩ .u64)), .act ⟨1⟩ .resume]
    let t := (Chronicle.start smallRuntime pair).run actions
    ∃ w, t.system.worker? ⟨1⟩ = some w ∧ w.context.phase = .active ∧ w.context.upper = 1 ∧
      (fromMemory (t.attempts ⟨1⟩).accesses).length = 2 ∧
      ∀ q ∈ fromMemory (t.attempts ⟨1⟩).accesses,
        q.HoldsIn (contentAt pair.words t.commits w.context.upper) := by
  intro actions t
  have limits : WithinLimits (Chronicle.start smallRuntime pair).system actions :=
    ⟨by decide +kernel, by decide +kernel, by decide⟩
  have found : ∃ w ∈ t.system.worker? ⟨1⟩,
      w.context.phase = .active ∧ w.context.mode ≠ .elastic ∧ w.context.upper = 1 := by decide +kernel
  obtain ⟨w, here, active, regular, upper⟩ := found
  have consistent := regular_attempt_consistent smallRuntime_new pair actions limits ⟨1⟩ w here active
    regular
  exact ⟨w, here, active, upper, by decide +kernel, consistent.2.2.2.2⟩

end TransactionalMemory
