import TransactionalMemory.Proofs.Commits

/-! # The invariant of a system

The invariant of a system is that of all its workers at once, with the shared part in common.  A change
of a system moves one worker, or lets a new one in.  The worker that moves keeps its own part, since a
move does; the others keep theirs, because they can rely on what a move leaves alone.  Owners that have
no worker hold no slot, and an owner id is never handed out twice, so a new worker begins with nothing.
-/

namespace TransactionalMemory

variable {allowed : Mode → Prop} {m₀ : Memory}

/-! ## Workers of a system -/

namespace System

variable {s : System} {owner o : OwnerId} {w : Worker}

/-- Without an owner that was announced. -/
def withdraw (s : System) (owner : OwnerId) : System :=
  { s with announced := s.announced.erase owner }

theorem id_ne (differs : owner ≠ o) : owner.id ≠ o.id := fun same => by
  cases owner
  cases o
  exact differs (congrArg OwnerId.mk same)

theorem worker?_setWorker : (s.setWorker owner w).worker? o =
    if owner = o then some w else s.worker? o := by
  by_cases same : owner = o
  · subst same
    simp [worker?, setWorker]
  · simp [worker?, setWorker, same, Std.TreeMap.getElem?_insert, id_ne same]

theorem worker?_erase (r : Runtime) : worker? ⟨r, s.workers.erase owner.id, s.announced⟩ o =
    if owner = o then none else s.worker? o := by
  by_cases same : owner = o
  · subst same
    simp [worker?]
  · simp [worker?, same, Std.TreeMap.getElem?_erase, id_ne same]

theorem run_snoc {α ε : Type} (s : System) (actions : List (Action α ε)) (a : Action α ε) :
    s.run (actions ++ [a]) =
      ((s.run actions).1 ++ [((s.run actions).2.step a).1], ((s.run actions).2.step a).2) := by
  induction actions generalizing s with
  | nil => rfl
  | cons b actions ih =>
    simp only [List.cons_append, run, ih]

/-! ## Owners -/

/-- No owner has a slot without a worker, and an owner id is handed out once only: the owners that are
    there, or are announced, have ids that were handed out, and no id is announced for a worker. -/
structure Roster (s : System) : Prop where
  strangers : ∀ o, s.worker? o = none → ∀ slot, s.runtime.table.word slot ≠ .held o
  known : ∀ o w, s.worker? o = some w → o.id < s.runtime.nextOwner
  expected : ∀ o ∈ s.announced, o.id < s.runtime.nextOwner ∧ s.worker? o = none
  distinct : s.announced.Nodup

namespace Roster

variable {s' : System}

/-- One worker has moved, and may be gone. -/
theorem moved (h : s.Roster) (here : s.worker? owner = some w)
    (others : ∀ o, o ≠ owner → s'.worker? o = s.worker? o) (announced : s'.announced = s.announced)
    (next : s'.runtime.nextOwner = s.runtime.nextOwner)
    (only : ∀ o, o ≠ owner → ∀ slot, s'.runtime.table.word slot = .held o →
      s.runtime.table.word slot = .held o)
    (gone : s'.worker? owner = none → ∀ slot, s'.runtime.table.word slot ≠ .held owner) : s'.Roster where
  strangers o none slot held := by
    by_cases other : o = owner
    · subst other
      exact gone none slot held
    · rw [others o other] at none
      exact h.strangers o none slot (only o other slot held)
  known o w' there := by
    rw [next]
    by_cases other : o = owner
    · subst other
      exact h.known o w here
    · rw [others o other] at there
      exact h.known o w' there
  expected o member := by
    rw [announced] at member
    obtain ⟨known, none⟩ := h.expected o member
    have other : o ≠ owner := fun same => by
      rw [same, here] at none
      cases none
    rw [next, others o other]
    exact ⟨known, none⟩
  distinct := by rw [announced]; exact h.distinct

theorem announce (h : s.Roster) : Roster { s with
    runtime := { s.runtime with nextOwner := s.runtime.nextOwner + 1 }
    announced := ⟨s.runtime.nextOwner⟩ :: s.announced } := by
  have new : s.worker? ⟨s.runtime.nextOwner⟩ = none := by
    cases there : s.worker? ⟨s.runtime.nextOwner⟩ with
    | none => rfl
    | some w => exact absurd (h.known _ w there) (Nat.lt_irrefl _)
  refine ⟨h.strangers, fun o w there => Nat.lt_succ_of_lt (h.known o w there), ?_, ?_⟩
  · intro o member
    cases member with
    | head => exact ⟨Nat.lt_succ_self _, new⟩
    | tail _ member =>
      obtain ⟨known, none⟩ := h.expected o member
      exact ⟨Nat.lt_succ_of_lt known, none⟩
  · refine List.nodup_cons.mpr ⟨?_, h.distinct⟩
    intro member
    exact absurd (h.expected _ member).1 (Nat.lt_irrefl _)

theorem register (h : s.Roster) (member : owner ∈ s.announced) (w : Worker) :
    ((s.withdraw owner).setWorker owner w).Roster := by
  obtain ⟨known, none⟩ := h.expected owner member
  have placed : ∀ o, ((s.withdraw owner).setWorker owner w).worker? o =
      if owner = o then some w else s.worker? o := fun _ => worker?_setWorker
  refine ⟨?_, ?_, ?_, h.distinct.erase owner⟩
  · intro o none slot held
    rw [placed] at none
    by_cases same : owner = o
    · rw [if_pos same] at none
      cases none
    · rw [if_neg same] at none
      exact h.strangers o none slot held
  · intro o w' there
    rw [placed] at there
    by_cases same : owner = o
    · exact same ▸ known
    · rw [if_neg same] at there
      exact h.known o w' there
  · intro o member
    have other : owner ≠ o := fun same =>
      h.distinct.not_mem_erase (same ▸ member : owner ∈ s.announced.erase owner)
    rw [placed, if_neg other]
    exact h.expected o (List.mem_of_mem_erase member)

theorem withdraw (h : s.Roster) (owner : OwnerId) : (s.withdraw owner).Roster :=
  ⟨h.strangers, h.known, fun o member => h.expected o (List.mem_of_mem_erase member),
    h.distinct.erase owner⟩

end Roster

end System

theorem Ledger.of_same {r r' : Runtime} {commits : List Commit} (h : Ledger m₀ r commits)
    (table : r'.table = r.table) (clock : r'.clock = r.clock) (memory : r'.memory = r.memory) :
    Ledger m₀ r' commits where
  ordered := h.ordered
  stamped := by rw [clock]; exact h.stamped
  logs := by rw [table]; exact h.logs
  words := by rw [memory]; exact h.words
  shape := by rw [memory]; exact h.shape
  free := by rw [table]; exact h.free

namespace Chronicle

/-- A worker of the system, in its place. -/
structure Seated (allowed : Mode → Prop) (m₀ : Memory) (t : Chronicle) (o : OwnerId) (w : Worker) :
    Prop where
  owner : w.context.owner = o
  sound : Sound allowed m₀ (t.seat o w)
  modes : ∀ b ∈ w.blocks, allowed b.mode
  window : w.context.window.capacity = t.system.runtime.settings.window

/-- The invariant of a system and its history. -/
structure Coherent (allowed : Mode → Prop) (m₀ : Memory) (t : Chronicle) : Prop where
  ledger : Ledger m₀ t.system.runtime t.commits
  limit : t.system.runtime.clock.now < lockBit
  annals : Annals allowed m₀ t.system.runtime.clock.now t.commits t.readOnly
  room : 0 < t.system.runtime.settings.window
  seats : ∀ o w, t.system.worker? o = some w → t.Seated allowed m₀ o w
  strangers : ∀ o, t.system.worker? o = none → ∀ slot, t.system.runtime.table.word slot ≠ .held o
  known : ∀ o w, t.system.worker? o = some w → o.id < t.system.runtime.nextOwner
  expected : ∀ o ∈ t.system.announced, o.id < t.system.runtime.nextOwner ∧ t.system.worker? o = none
  distinct : t.system.announced.Nodup

variable {t t' : Chronicle} {owner : OwnerId} {w : Worker}

theorem seat_beside {o : OwnerId} (attempts : t'.attempts o = t.attempts o) (w' : Worker) :
    t'.seat o w' = (t.seat o w').beside (t'.seat o w') := by
  simp [seat, Seat.beside, attempts]

theorem Seated.beside {o : OwnerId} (seated : t.Seated allowed m₀ o w)
    (rely : Rely o (t.seat o w) (t'.seat o w)) (attempts : t'.attempts o = t.attempts o)
    (ledger : Ledger m₀ t'.system.runtime t'.commits) (limit : t'.system.runtime.clock.now < lockBit)
    (annals : Annals allowed m₀ t'.system.runtime.clock.now t'.commits t'.readOnly) :
    t'.Seated allowed m₀ o w where
  owner := seated.owner
  sound := by
    rw [seat_beside attempts w]
    refine seated.sound.beside ?_ ledger limit annals
    rw [show (t.seat o w).context.owner = o from seated.owner]
    exact rely
  modes := seated.modes
  window := by
    have settings : t'.system.runtime.settings = t.system.runtime.settings := rely.settings
    rw [settings]
    exact seated.window

/-- One worker has moved, and may be gone. -/
structure Moved (allowed : Mode → Prop) (t t' : Chronicle) (owner : OwnerId) (w : Worker) (d : Seat) :
    Prop where
  here : t.system.worker? owner = some w
  moves : Moves allowed (t.seat owner w) d
  runtime : t'.system.runtime = d.runtime
  commits : t'.commits = d.commits
  readOnly : t'.readOnly = d.readOnly
  attempts : ∀ o, o ≠ owner → t'.attempts o = t.attempts o
  others : ∀ o, o ≠ owner → t'.system.worker? o = t.system.worker? o
  announced : t'.system.announced = t.system.announced
  self : ∀ w', t'.system.worker? owner = some w' →
    t'.seat owner w' = d ∧ ∀ b ∈ w'.blocks, allowed b.mode
  gone : t'.system.worker? owner = none → d.context.phase ≠ .active

/-- What one step may do to a chronicle, and whether it hands out an owner id. -/
inductive Change (allowed : Mode → Prop) (t : Chronicle) : Bool → Chronicle → Prop where
  | none : Change allowed t false t
  | moved {t' : Chronicle} (owner : OwnerId) (w : Worker) (d : Seat) (moved : Moved allowed t t' owner w d) :
      Change allowed t false t'
  | announced : Change allowed t true
      { t with system := { t.system with
        runtime := { t.system.runtime with nextOwner := t.system.runtime.nextOwner + 1 }
        announced := ⟨t.system.runtime.nextOwner⟩ :: t.system.announced } }
  | registered (owner : OwnerId) (window : Window) (member : owner ∈ t.system.announced)
      (capacity : window.capacity = t.system.runtime.settings.window) (empty : window.entries = []) :
      Change allowed t false
        { t with system := (t.system.withdraw owner).setWorker owner { context := { owner, window } } }
  /-- There is no room for the context of an announced owner. -/
  | withdrawn (owner : OwnerId) : Change allowed t false
      { t with system := t.system.withdraw owner }

theorem Change.settings {new : Bool} (c : Change allowed t new t') :
    t'.system.runtime.settings = t.system.runtime.settings := by
  cases c with
  | moved owner w d moved =>
    rw [moved.runtime]
    exact moved.moves.settings
  | _ => rfl

theorem Change.nextOwner {new : Bool} (c : Change allowed t new t') :
    t'.system.runtime.nextOwner = t.system.runtime.nextOwner + new.toNat := by
  cases c with
  | moved owner w d moved =>
    rw [moved.runtime]
    exact moved.moves.nextOwner
  | _ => rfl

namespace Coherent

/-! ## A change keeps the invariant -/

theorem roster (h : t.Coherent allowed m₀) : t.system.Roster :=
  ⟨h.strangers, h.known, h.expected, h.distinct⟩

theorem moved (h : t.Coherent allowed m₀) {d : Seat} (m : Moved allowed t t' owner w d) :
    t'.Coherent allowed m₀ := by
  obtain ⟨here, moves, runtime, commits, readOnly, attempts, others, announced, self, gone⟩ := m
  have seated := h.seats owner w here
  have sound : Sound allowed m₀ d := seated.sound.moves moves
  have same : d.context.owner = owner := moves.owner.trans seated.owner
  have settings : d.runtime.settings = t.system.runtime.settings := moves.settings
  have next : t'.system.runtime.nextOwner = t.system.runtime.nextOwner := by
    rw [runtime]
    exact moves.nextOwner
  have ledger : Ledger m₀ t'.system.runtime t'.commits := by rw [runtime, commits]; exact sound.ledger
  have limit : t'.system.runtime.clock.now < lockBit := by rw [runtime]; exact sound.limit
  have annals : Annals allowed m₀ t'.system.runtime.clock.now t'.commits t'.readOnly := by
    rw [runtime, commits, readOnly]
    exact sound.annals
  have rely : ∀ {o}, o ≠ owner → Rely o (t.seat owner w) d := fun other =>
    seated.sound.rely_moves moves (by
      rw [show (t.seat owner w).context.owner = owner from seated.owner]
      exact other)
  have roster : t'.system.Roster := by
    refine h.roster.moved here others announced next ?_ ?_
    · intro o other slot held
      rw [runtime] at held
      exact (rely other).only slot held
    · intro none slot held
      rw [runtime] at held
      -- A context that is gone is not active, and so it held nothing.
      have owns := sound.owning.listed slot (by rw [same]; exact held)
      rw [sound.owning.idle (gone none)] at owns
      cases owns
  -- The worker that moved is sound after its moves, every other one by what it can rely on.
  refine ⟨ledger, limit, annals, ?_, ?_, roster.strangers, roster.known, roster.expected,
    roster.distinct⟩
  · rw [runtime, settings]
    exact h.room
  · intro o w' there
    by_cases other : o = owner
    · subst other
      obtain ⟨seat, modes⟩ := self w' there
      have context : w'.context = d.context := congrArg Seat.context seat
      refine ⟨context ▸ same, seat ▸ sound, modes, ?_⟩
      rw [context, runtime, settings]
      exact moves.capacity.trans seated.window
    · rw [others o other] at there
      exact (h.seats o w' there).beside ((rely other).congr rfl rfl runtime commits) (attempts o other)
        ledger limit annals

theorem announced (h : t.Coherent allowed m₀) : Coherent allowed m₀
    { t with system := { t.system with
      runtime := { t.system.runtime with nextOwner := t.system.runtime.nextOwner + 1 }
      announced := ⟨t.system.runtime.nextOwner⟩ :: t.system.announced } } := by
  have roster := h.roster.announce
  refine ⟨h.ledger.of_same rfl rfl rfl, h.limit, h.annals, h.room, ?_, roster.strangers, roster.known,
    roster.expected, roster.distinct⟩
  intro o w there
  exact (h.seats o w there).beside (.of_clock rfl rfl rfl rfl (Nat.le_refl _)) rfl
    (h.ledger.of_same rfl rfl rfl) h.limit h.annals

theorem seated_new (h : t.Coherent allowed m₀) {s : System} {window : Window}
    (capacity : window.capacity = t.system.runtime.settings.window) (empty : window.entries = [])
    (nothing : ∀ slot, t.system.runtime.table.word slot ≠ .held owner)
    (runtime : s.runtime = t.system.runtime) :
    Seated allowed m₀ { t with system := s } owner { context := { owner, window } } where
  owner := rfl
  sound :=
    { ledger := by rw [seat, runtime]; exact h.ledger
      limit := by rw [seat, runtime]; exact h.limit
      annals := by rw [seat, runtime]; exact h.annals
      owning := .of_empty rfl (by rw [seat, runtime]; exact nothing)
      dated :=
        { lower_le := Nat.le_refl _
          upper_le := Nat.zero_le _
          logged := fun e member => nomatch member
          watched := fun e member => by
            have none : e ∈ window.entries := member
            rw [empty] at none
            nomatch none
          time := Phase.noConfusion }
      room := capacity ▸ h.room
      waits := fun _ _ pending => nomatch pending
      may := Phase.noConfusion
      snapshot := Phase.noConfusion
      watching := Phase.noConfusion
      guarding := Phase.noConfusion }
  modes := fun _ member => nomatch member
  window := by rw [runtime]; exact capacity

theorem registered (h : t.Coherent allowed m₀) {window : Window}
    (member : owner ∈ t.system.announced)
    (capacity : window.capacity = t.system.runtime.settings.window) (empty : window.entries = []) :
    Coherent allowed m₀
      { t with system := (t.system.withdraw owner).setWorker owner { context := { owner, window } } } := by
  have roster := h.roster.register member { context := { owner, window } }
  have none := (h.expected owner member).2
  have placed : ∀ o, ((t.system.withdraw owner).setWorker owner
      { context := { owner, window } }).worker? o =
      if owner = o then some { context := { owner, window } } else t.system.worker? o := fun _ =>
    System.worker?_setWorker
  refine ⟨h.ledger, h.limit, h.annals, h.room, ?_, roster.strangers, roster.known, roster.expected,
    roster.distinct⟩
  intro o w there
  rw [placed] at there
  by_cases same : owner = o
  · subst same
    rw [if_pos rfl] at there
    cases there
    exact h.seated_new capacity empty (h.strangers owner none) rfl
  · rw [if_neg same] at there
    exact (h.seats o w there).beside (.of_clock rfl rfl rfl rfl (Nat.le_refl _)) rfl h.ledger
      h.limit h.annals

theorem withdrawn (h : t.Coherent allowed m₀) (owner : OwnerId) : Coherent allowed m₀
    { t with system := t.system.withdraw owner } := by
  have roster := h.roster.withdraw owner
  refine ⟨h.ledger, h.limit, h.annals, h.room, ?_, roster.strangers, roster.known, roster.expected,
    roster.distinct⟩
  intro o w there
  exact (h.seats o w there).beside (.of_clock rfl rfl rfl rfl (Nat.le_refl _)) rfl h.ledger h.limit
    h.annals

theorem change (h : t.Coherent allowed m₀) {new : Bool} (c : Change allowed t new t') :
    t'.Coherent allowed m₀ := by
  cases c with
  | none => exact h
  | moved owner w d moved => exact h.moved moved
  | announced => exact h.announced
  | registered owner window member capacity empty => exact h.registered member capacity empty
  | withdrawn owner => exact h.withdrawn owner

end Coherent

end Chronicle

end TransactionalMemory
