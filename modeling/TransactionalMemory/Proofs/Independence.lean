import TransactionalMemory.Proofs.Programs

/-! # Attempts on disjoint slots

Several contexts run an attempt each, in any order of their steps (`Interplay`).  If the programs keep to disjoint
sets of slots, and no slot is held when they begin, then the order makes no difference: each program is answered
as if it went directly to memory as it was at the beginning, and every attempt commits
(`independent_attempts_commute`).

What carries this over a run is that an attempt has its slots to itself (`Scope.Secluded`), which a step of
another one does not change, since that one leaves what is outside of its own slots alone.
-/

namespace TransactionalMemory

variable {α ε : Type}

/-! ## Tasks -/

/-- The program keeps to fields of one kind, whatever it reads. -/
def Program.KeepsTo (inside : Location → Prop) : Program → Prop
  | done => True
  | read _ l _ next => inside l ∧ ∀ v, (next v).KeepsTo inside
  | write l _ next => inside l ∧ next.KeepsTo inside

/-- An attempt that a context is to make, and the slots that it may touch. -/
structure Task where
  block : Nat
  mode : Mode
  program : Program
  slots : Nat → Prop

namespace Task

/-- Whether the program writes something if it goes directly to memory. -/
def wrote (t : Task) (s : System) : Bool := (t.program.direct s.runtime.memory.words).1.contains .done

/-- The answer to a commit that succeeds, unless it cannot be counted. -/
def ending (t : Task) (s : System) (w : Worker) : Response α ε :=
  match w.context.tally.countCommit t.mode (!t.wrote s) with
  | .ok _ => .replied (.verdict true)
  | .error f => .faulted f

/-- The answers to the start, to the accesses as if they went directly to memory, and to the commit. -/
def answers (t : Task) (s : System) (w : Worker) : List (Response α ε) :=
  .replied .done :: (t.program.direct s.runtime.memory.words).1.map .replied ++ [t.ending s w]

/-- How many steps the attempt takes. -/
def steps (t : Task) (s : System) : Nat := (t.program.direct s.runtime.memory.words).1.length + 2

theorem length_answers (t : Task) (s : System) (w : Worker) :
    (t.answers (α := α) (ε := ε) s w).length = t.steps s := by
  simp [answers, steps]

end Task

/-! ## Clients in any order -/

/-- How far a client has come with its task. -/
inductive Client where
  | start (t : Task)
  | access (rest : Program)
  | finished

namespace Client

/-- What the client asks for next. -/
def request? : Client → Option Request
  | start t => some (.start t.block t.mode)
  | access .done => some .commit
  | access (.read probes l kind _) => some (if probes then .read l kind else .load l kind)
  | access (.write l v _) => some (.write l v)
  | finished => none

/-- The client goes on with its program as long as it is answered, and it is over after its commit. -/
def hear : Client → Response α ε → Client
  | start t, .replied .done => access t.program
  | access (.read _ _ _ next), .replied (.value v) => access (next v)
  | access (.write _ _ next), .replied .done => access next
  | _, _ => finished

end Client

/-- Clients at work on a system, each for one owner, with what they have been told. -/
structure Interplay (α ε : Type) where
  system : System
  clients : OwnerId → Client
  heard : OwnerId → List (Response α ε)

namespace Interplay

/-- The client of an owner takes its next step. -/
def turn (p : Interplay α ε) (owner : OwnerId) : Interplay α ε :=
  match (p.clients owner).request? with
  | none => p
  | some request =>
    let (response, system) := p.system.step (.act owner (.call request))
    { system
      clients := fun o => if o = owner then (p.clients owner).hear response else p.clients o
      heard := fun o => if o = owner then p.heard owner ++ [response] else p.heard o }

/-- The clients take their steps in the given order. -/
def run (p : Interplay α ε) (order : List OwnerId) : Interplay α ε := order.foldl turn p

/-- Each owner is about to begin its task. -/
def start (s : System) (owners : List OwnerId) (task : OwnerId → Task) : Interplay α ε where
  system := s
  clients o := if o ∈ owners then .start (task o) else .finished
  heard _ := []

/-- The clock stays away from the lock bit. -/
def InTime (p : Interplay α ε) (order : List OwnerId) : Prop :=
  ∀ n ≤ order.length, (p.run (order.take n)).system.runtime.clock.now < lockBit - 1

instance (p : Interplay α ε) (order : List OwnerId) : Decidable (p.InTime order) :=
  inferInstanceAs (Decidable (∀ n ≤ order.length, _ < _))

end Interplay

/-! ## Calls of an attempt that has its slots to itself -/

namespace Runtime.Confined

variable {r r' r'' : Runtime} {area area' : Nat → Prop}

theorem refl (r : Runtime) (area : Nat → Prop) : r.Confined area r :=
  ⟨rfl, fun _ _ => rfl, fun _ => rfl, fun _ _ => rfl, Nat.le_refl _⟩

theorem mono (c : r.Confined area r') (sub : ∀ slot, area slot → area' slot) : r.Confined area' r' where
  bits := c.bits
  word slot outside := c.word slot fun own => outside (sub slot own)
  shape := c.shape
  words l outside := c.words l fun own => outside (sub _ own)
  clock := c.clock

theorem slotOf (c : r.Confined area r') : r'.table.slotOf = r.table.slotOf := LockTable.slotOf_congr c.bits

theorem trans (c : r.Confined area r') (c' : r'.Confined area r'') : r.Confined area r'' where
  bits := c'.bits.trans c.bits
  word slot outside := (c'.word slot outside).trans (c.word slot outside)
  shape address := (c'.shape address).trans (c.shape address)
  words l outside := (c'.words l (c.slotOf.symm ▸ outside)).trans (c.words l outside)
  clock := c.clock.trans c'.clock

end Runtime.Confined

namespace System

variable {s : System} {owner : OwnerId} {area : Nat → Prop} {o : Scope.Outset} {words words' : Words}
  {wrote wrote' : Bool}

/-- Between two calls of its owner, the attempt has its slots to itself, and what it has read is current. -/
def Secluded (s : System) (owner : OwnerId) (area : Nat → Prop) (o : Scope.Outset) (words : Words)
    (wrote : Bool) : Prop :=
  ∃ w, s.worker? owner = some w ∧ w.isBusy = false ∧ (w.scope s.runtime).Secluded area o words wrote ∧
    (w.scope s.runtime).CurrentIn area w.context.reads.entries

theorem Secluded.access (u : s.Secluded owner area o words wrote) {request : Request} {reply : Reply}
    (performs : ∀ scope : Scope, scope.runtime = s.runtime → scope.Secluded area o words wrote → ∃ scope',
      scope.perform request = (.answered reply, scope') ∧ scope'.Secluded area o words' wrote' ∧
        scope.Accessed area scope') : ∃ s',
      s.step (.act owner (.call request) : Action α ε) = (.replied reply, s') ∧
        s'.Secluded owner area o words' wrote' ∧ s.runtime.Confined area s'.runtime ∧
        s'.runtime.clock = s.runtime.clock := by
  obtain ⟨w, here, idle, secluded, current⟩ := u
  obtain ⟨scope, performed, still, accessed⟩ := performs _ rfl secluded
  obtain ⟨s', w', answered, there, idle', same⟩ := step_of_answered here idle performed
  subst same
  exact ⟨s', answered, ⟨w', there, idle', still, accessed.reads current⟩, accessed.confined, accessed.clock⟩

theorem Secluded.read (u : s.Secluded owner area o words wrote) {l : Location}
    (own : area (s.runtime.table.slotOf l)) (has : o.memory.Has l) (probes : Bool) (kind : Kind) : ∃ s',
      s.step (.act owner (.call (if probes then .read l kind else .load l kind)) : Action α ε) =
          (.replied (.value (Value.decode (words l) kind)), s') ∧
        s'.Secluded owner area o words wrote ∧ s.runtime.Confined area s'.runtime ∧
        s'.runtime.clock = s.runtime.clock := by
  cases probes with
  | true => exact u.access fun scope here secluded => secluded.read (here.symm ▸ own) has
  | false => exact u.access fun scope here secluded => secluded.load (here.symm ▸ own) has

theorem Secluded.write (u : s.Secluded owner area o words wrote) {l : Location}
    (own : area (s.runtime.table.slotOf l)) (has : o.memory.Has l) (v : Value) : ∃ s',
      s.step (.act owner (.call (.write l v)) : Action α ε) = (.replied .done, s') ∧
        s'.Secluded owner area o (words.put l v.encode) true ∧ s.runtime.Confined area s'.runtime ∧
        s'.runtime.clock = s.runtime.clock :=
  u.access fun _ here secluded => secluded.write (here.symm ▸ own) has v

theorem Secluded.commit (u : s.Secluded owner area o words wrote) (small : s.runtime.clock.now < lockBit - 1) :
    ∃ s', s.step (.act owner (.call .commit) : Action α ε) =
        (match o.tally.countCommit o.mode (!wrote) with
          | .ok _ => .replied (.verdict true)
          | .error f => .faulted f, s') ∧
      s.runtime.Confined area s'.runtime ∧ s'.runtime.clock.now = s.runtime.clock.now + wrote.toNat ∧
      ∀ l, area (s.runtime.table.slotOf l) → s'.runtime.memory.words l = words l := by
  obtain ⟨w, here, idle, secluded, current⟩ := u
  obtain ⟨scope, committed, stored, now, confined⟩ := secluded.commit (fun _ => small) (Or.inr current)
  have stored : ∀ l, area (s.runtime.table.slotOf l) → scope.runtime.memory.words l = words l := fun l own =>
    (congrFun stored l).trans ((secluded.overlay_eq l).1 own)
  rw [step_call here idle, Scope.perform, committed]
  cases o.tally.countCommit o.mode (!wrote) <;> exact ⟨_, rfl, confined, now, stored⟩

theorem Secluded.beside {s' : System} (u : s.Secluded owner area o words wrote) {others : Nat → Prop}
    (same : s'.worker? owner = s.worker? owner) (orderly : s'.Orderly)
    (confined : s.runtime.Confined others s'.runtime) (apart : ∀ slot, area slot → ¬ others slot) :
    s'.Secluded owner area o words wrote := by
  obtain ⟨w, here, idle, secluded, current⟩ := u
  have there := same.trans here
  exact ⟨w, there, idle, secluded.beside confined apart (orderly.holding owner w there),
    current.beside confined apart⟩

end System

/-! ## The course of a task -/

/-- Nobody holds a slot of the table. -/
def LockTable.Unlocked (t : LockTable) : Prop := ∀ slot < t.size, (t.word slot).stamp?.isSome = true

instance (t : LockTable) : Decidable t.Unlocked := inferInstanceAs (Decidable (∀ slot < t.size, _))

theorem LockTable.Unlocked.exists_stamp {t : LockTable} (h : t.Unlocked) (slot : Nat) (inside : slot < t.size) :
    ∃ stamp, t.word slot = .free stamp := by
  have free := h slot inside
  cases word : t.word slot with
  | free stamp => exact ⟨stamp, rfl⟩
  | held holder =>
    rw [word] at free
    cases free

/-- While nobody holds a slot, nobody remembers a stamp. -/
theorem System.Orderly.unheld {s : System} (h : s.Orderly) (unlocked : s.runtime.table.Unlocked) {o : OwnerId}
    {w : Worker} (here : s.worker? o = some w) (slot stamp : Nat) :
    w.context.writes.stamp? slot ≠ some stamp := by
  intro held
  have holding := h.holding o w here
  have owns : w.context.writes.owns slot = true := Option.isSome_iff_exists.mpr ⟨stamp, held⟩
  obtain ⟨e, -, placed⟩ := holding.wellFormed.owns_iff_exists.mp owns
  have inside : slot < s.runtime.table.size := placed ▸ LockTable.slotOf_lt_size _ e.location
  obtain ⟨stamp', free⟩ := unlocked.exists_stamp slot inside
  cases free.symm.trans (holding.held slot stamp held)

/-- A context is ready for a task: nobody holds a slot, and the program keeps to the slots of the task. -/
structure Task.Ready (t : Task) (s : System) (owner : OwnerId) (w : Worker) : Prop where
  here : s.worker? owner = some w
  idle : w.isBusy = false
  small : s.runtime.clock.now < lockBit
  unlocked : ∀ slot < s.runtime.table.size, ∃ stamp, s.runtime.table.word slot = .free stamp
  timely : ∀ slot stamp, s.runtime.table.word slot = .free stamp → stamp ≤ s.runtime.clock.now
  unheld : ∀ slot stamp, w.context.writes.stamp? slot ≠ some stamp
  keeps : t.program.KeepsTo fun l => t.slots (s.runtime.table.slotOf l)
  inRange : t.program.InRange s.runtime.memory s.runtime.memory.words

/-- Where a task stands that its owner began in another state, with the answers that are still to come. -/
inductive Task.Course (t : Task) (s₀ : System) (owner : OwnerId) (w : Worker) (s : System) :
    Client → List (Response α ε) → Prop where
  | start (here : s.worker? owner = some w)
      (word : ∀ slot, t.slots slot → s.runtime.table.word slot = s₀.runtime.table.word slot)
      (words : ∀ l, t.slots (s₀.runtime.table.slotOf l) →
        s.runtime.memory.words l = s₀.runtime.memory.words l) :
      Course t s₀ owner w s (.start t) (t.answers s₀ w)
  | access {rest : Program} {words : Words} {wrote : Bool}
      (secluded : s.Secluded owner t.slots ⟨s₀.runtime.memory, s₀.runtime.clock, t.mode, w.context.tally⟩ words
        wrote)
      (keeps : rest.KeepsTo fun l => t.slots (s₀.runtime.table.slotOf l))
      (inRange : rest.InRange s₀.runtime.memory words)
      (final : (rest.direct words).2 = (t.program.direct s₀.runtime.memory.words).2)
      (writes : (wrote || (rest.direct words).1.contains .done) = t.wrote s₀) :
      Course t s₀ owner w s (.access rest)
        ((rest.direct words).1.map .replied ++ [t.ending s₀ w])
  | finished (words : ∀ l, t.slots (s₀.runtime.table.slotOf l) →
        s.runtime.memory.words l = (t.program.direct s₀.runtime.memory.words).2 l) :
      Course t s₀ owner w s .finished []

namespace Task.Course

variable {t : Task} {s₀ s s' : System} {owner : OwnerId} {w : Worker} {client : Client}
  {rest : List (Response α ε)} {a : Response α ε} {all : Nat → Prop}

/-- A step of others leaves a task where it stands. -/
theorem beside (c : Course t s₀ owner w s client rest) {others : Nat → Prop}
    (slotOf : s.runtime.table.slotOf = s₀.runtime.table.slotOf)
    (same : s'.worker? owner = s.worker? owner) (orderly : s'.Orderly)
    (confined : s.runtime.Confined others s'.runtime) (apart : ∀ slot, t.slots slot → ¬ others slot) :
    Course t s₀ owner w s' client rest := by
  have words' : ∀ l, t.slots (s₀.runtime.table.slotOf l) →
      s'.runtime.memory.words l = s.runtime.memory.words l := fun l own =>
    confined.words l (slotOf.symm ▸ apart _ own)
  cases c with
  | start here word words =>
    exact .start (same.trans here) (fun slot own => (confined.word slot (apart slot own)).trans (word slot own))
      fun l own => (words' l own).trans (words l own)
  | access secluded keeps inRange final writes =>
    exact .access (secluded.beside same orderly confined apart) keeps inRange final writes
  | finished words => exact .finished fun l own => (words' l own).trans (words l own)

/-- A task that is about to begin is told so, and has its slots to itself. -/
theorem turn_start (ready : t.Ready s₀ owner w) (here : s.worker? owner = some w)
    (word : ∀ slot, t.slots slot → s.runtime.table.word slot = s₀.runtime.table.word slot)
    (words : ∀ l, t.slots (s₀.runtime.table.slotOf l) → s.runtime.memory.words l = s₀.runtime.memory.words l)
    (orderly : s.Orderly) (since : s₀.runtime.Confined all s.runtime) : ∃ s',
      s.step (.act owner (.call (.start t.block t.mode)) : Action α ε) = (.replied .done, s') ∧
      s'.Secluded owner t.slots ⟨s₀.runtime.memory, s₀.runtime.clock, t.mode, w.context.tally⟩
        s₀.runtime.memory.words false ∧
      s.runtime.Confined t.slots s'.runtime ∧ s'.runtime.clock = s.runtime.clock := by
  have size : s.runtime.table.size = s₀.runtime.table.size := LockTable.size_congr since.bits
  obtain ⟨scope, started, secluded, begun⟩ := Scope.Secluded.of_start t.slots (orderly.holding owner w here)
    ready.small since.clock since.shape (fun l own => words l (since.slotOf ▸ own))
    (fun slot inside own => by
      obtain ⟨stamp, free⟩ := ready.unlocked slot (size ▸ inside)
      rw [Worker.scope, word slot own, free]
      rfl)
    (fun slot stamp own free => ready.timely slot stamp ((word slot own).symm.trans free))
    (fun slot stamp held => absurd held (ready.unheld slot stamp)) t.block t.mode
  have performed : (w.scope s.runtime).perform (.start t.block t.mode) = (.answered .done, scope) := by
    rw [Scope.perform, started]
    rfl
  obtain ⟨s', w', answered, there, idle, same⟩ := System.step_of_answered here ready.idle performed
  subst same
  refine ⟨s', answered, ⟨w', there, idle, secluded, ?_⟩, begun.confined, begun.clock⟩
  rw [show w'.context.reads = {} from begun.reads]
  exact List.forall_mem_nil _

/-- The next answer is the one that is due. -/
theorem turn (c : Course t s₀ owner w s client (a :: rest)) (ready : t.Ready s₀ owner w) (orderly : s.Orderly)
    (since : s₀.runtime.Confined all s.runtime) (small : s.runtime.clock.now < lockBit - 1) : ∃ request s',
      client.request? = some request ∧ s.step (.act owner (.call request)) = (a, s') ∧
      Course t s₀ owner w s' (client.hear a) rest ∧ s.runtime.Confined t.slots s'.runtime ∧
      s'.runtime.clock.now = s.runtime.clock.now +
        if rest.isEmpty then (t.wrote s₀).toNat else 0 := by
  have slotOf := since.slotOf
  generalize due : a :: rest = answers at c
  cases c with
  | start here word words =>
    obtain ⟨rfl, rfl⟩ := List.cons.inj due
    obtain ⟨s', answered, secluded, confined, clock⟩ := turn_start (α := α) (ε := ε) ready here word words
      orderly since
    refine ⟨_, s', rfl, answered, .access secluded ready.keeps ready.inRange rfl (Bool.false_or _), confined, ?_⟩
    rw [clock]
    simp
  | @access program words wrote secluded keeps inRange final writes =>
    cases program with
    | done =>
      obtain ⟨rfl, rfl⟩ := List.cons.inj due
      obtain ⟨s', answered, confined, clock, stored⟩ := secluded.commit (α := α) (ε := ε) small
      have writes : wrote = t.wrote s₀ := by
        rwa [Program.direct, List.contains_nil, Bool.or_false] at writes
      subst writes
      refine ⟨_, s', rfl, answered, .finished fun l own => ?_, confined, clock⟩
      rw [← final]
      exact stored l (slotOf.symm ▸ own)
    | read probes l kind next =>
      obtain ⟨rfl, rfl⟩ := List.cons.inj due
      obtain ⟨own, keeps⟩ := keeps
      obtain ⟨has, inRange⟩ := inRange
      obtain ⟨s', answered, secluded, confined, clock⟩ := secluded.read (α := α) (ε := ε)
        (slotOf.symm ▸ own) has probes kind
      refine ⟨_, s', rfl, answered, .access secluded (keeps _) inRange final ?_, confined, ?_⟩
      · rw [← writes]
        simp [Program.direct]
      · rw [clock]
        simp
    | write l v next =>
      obtain ⟨rfl, rfl⟩ := List.cons.inj due
      obtain ⟨own, keeps⟩ := keeps
      obtain ⟨has, inRange⟩ := inRange
      obtain ⟨s', answered, secluded, confined, clock⟩ := secluded.write (α := α) (ε := ε)
        (slotOf.symm ▸ own) has v
      refine ⟨_, s', rfl, answered, .access secluded keeps inRange final ?_, confined, ?_⟩
      · rw [← writes]
        simp [Program.direct]
      · rw [clock]
        simp
  | finished words => cases due

theorem finished_of_nil (c : Course t s₀ owner w s client ([] : List (Response α ε))) : client = .finished ∧
    ∀ l, t.slots (s₀.runtime.table.slotOf l) →
      s.runtime.memory.words l = (t.program.direct s₀.runtime.memory.words).2 l := by
  generalize due : ([] : List (Response α ε)) = answers at c
  cases c with
  | start => cases due
  | access => exact absurd due.symm (List.append_ne_nil_of_right_ne_nil _ (List.cons_ne_nil _ _))
  | finished words => exact ⟨rfl, words⟩

end Task.Course

/-! ## All tasks together -/

namespace Interplay

variable {s₀ : System} {owners order : List OwnerId} {task : OwnerId → Task} {worker : OwnerId → Worker}
  {p : Interplay α ε}

theorem count_snoc_self (order : List OwnerId) (o : OwnerId) : (order ++ [o]).count o = order.count o + 1 := by
  rw [List.count_append, List.count_singleton_self]

theorem count_snoc_of_ne (order : List OwnerId) {o k : OwnerId} (other : k ≠ o) :
    (order ++ [o]).count k = order.count k := by
  rw [List.count_append, List.count_singleton, beq_eq_false_iff_ne.mpr other.symm]
  rfl

/-- The clock has moved once for each task that has come to its end and has written something. -/
def Elapsed (s₀ : System) (owners : List OwnerId) (task : OwnerId → Task) (order : List OwnerId) (now : Nat) :
    Prop :=
  ∃ finished : List OwnerId, finished.Nodup ∧
    (∀ o, o ∈ finished ↔ o ∈ owners ∧ (task o).steps s₀ ≤ order.count o) ∧
    now = s₀.runtime.clock.now + finished.countP fun o => (task o).wrote s₀

namespace Elapsed

variable {now : Nat} {o : OwnerId}

theorem start : Elapsed s₀ owners task [] s₀.runtime.clock.now :=
  ⟨[], List.nodup_nil, fun o => by simp [Task.steps], rfl⟩

theorem still (h : Elapsed s₀ owners task order now)
    (same : o ∈ owners → ((task o).steps s₀ ≤ order.count o + 1 ↔ (task o).steps s₀ ≤ order.count o)) :
    Elapsed s₀ owners task (order ++ [o]) now := by
  obtain ⟨finished, distinct, mem, clock⟩ := h
  refine ⟨finished, distinct, fun k => ?_, clock⟩
  rw [mem k]
  refine and_congr_right fun member => ?_
  by_cases other : k = o
  · subst other
    rw [count_snoc_self, same member]
  · rw [count_snoc_of_ne order other]

theorem finish (h : Elapsed s₀ owners task order now) (member : o ∈ owners)
    (last : (task o).steps s₀ = order.count o + 1) :
    Elapsed s₀ owners task (order ++ [o]) (now + ((task o).wrote s₀).toNat) := by
  obtain ⟨finished, distinct, mem, rfl⟩ := h
  have new : o ∉ finished := fun done => by
    have le := ((mem o).mp done).2
    omega
  refine ⟨o :: finished, List.nodup_cons.mpr ⟨new, distinct⟩, fun k => ?_, ?_⟩
  · rw [List.mem_cons]
    by_cases other : k = o
    · subst other
      rw [count_snoc_self]
      exact ⟨fun _ => ⟨member, last.le⟩, fun _ => Or.inl rfl⟩
    · rw [count_snoc_of_ne order other, mem k]
      exact or_iff_right other
  · rw [List.countP_cons]
    cases (task o).wrote s₀ <;> rfl

/-- When all tasks have come to their ends, each that has written something has moved the clock. -/
theorem complete (h : Elapsed s₀ owners task order now) (distinct : owners.Nodup)
    (ended : ∀ o ∈ owners, (task o).steps s₀ ≤ order.count o) :
    now = s₀.runtime.clock.now + owners.countP fun o => (task o).wrote s₀ := by
  obtain ⟨finished, distinct', mem, rfl⟩ := h
  have same : finished.Perm owners := (List.perm_ext_iff_of_nodup distinct' distinct).mpr fun o =>
    (mem o).trans (and_iff_left_of_imp (ended o))
  rw [same.countP_eq]

end Elapsed

/-- After the owners have taken steps in some order: each task is where its own steps have brought it. -/
structure Apart (s₀ : System) (owners : List OwnerId) (task : OwnerId → Task) (worker : OwnerId → Worker)
    (order : List OwnerId) (p : Interplay α ε) : Prop where
  orderly : p.system.Orderly
  confined : s₀.runtime.Confined (fun slot => ∃ o ∈ owners, (task o).slots slot) p.system.runtime
  courses : ∀ o ∈ owners, (task o).Course s₀ o (worker o) p.system (p.clients o)
    (((task o).answers (α := α) (ε := ε) s₀ (worker o)).drop (order.count o))
  heard : ∀ o ∈ owners, p.heard o = ((task o).answers s₀ (worker o)).take (order.count o)
  strangers : ∀ o, o ∉ owners → p.clients o = .finished
  clock : Elapsed s₀ owners task order p.system.runtime.clock.now

theorem turn_of_finished {o : OwnerId} (finished : p.clients o = .finished) : p.turn o = p := by
  rw [turn, finished]
  rfl

theorem turn_eq {o : OwnerId} {request : Request} {a : Response α ε} {s : System}
    (asks : (p.clients o).request? = some request) (answered : p.system.step (.act o (.call request)) = (a, s)) :
    p.turn o =
      { system := s
        clients := fun k => if k = o then (p.clients o).hear a else p.clients k
        heard := fun k => if k = o then p.heard o ++ [a] else p.heard k } := by
  rw [turn, asks]
  dsimp only
  rw [answered]

theorem Apart.start (ready : ∀ o ∈ owners, (task o).Ready s₀ o (worker o)) (orderly : s₀.Orderly) :
    Apart s₀ owners task worker [] (Interplay.start (α := α) (ε := ε) s₀ owners task) where
  orderly := orderly
  confined := .refl _ _
  courses o member := by
    rw [show (Interplay.start (α := α) (ε := ε) s₀ owners task).clients o = .start (task o) from if_pos member]
    exact .start (ready o member).here (fun _ _ => rfl) fun _ _ => rfl
  heard _ _ := rfl
  strangers o stranger := if_neg stranger
  clock := .start

/-- A turn of an owner that has nothing left to do changes nothing. -/
theorem Apart.idle (h : Apart s₀ owners task worker order p) {o : OwnerId}
    (done : o ∈ owners → (task o).steps s₀ ≤ order.count o) :
    Apart s₀ owners task worker (order ++ [o]) p := by
  have same : ∀ k ∈ owners, ∀ {answers : List (Response α ε)}, answers.length = (task k).steps s₀ →
      answers.drop ((order ++ [o]).count k) = answers.drop (order.count k) ∧
      answers.take ((order ++ [o]).count k) = answers.take (order.count k) := by
    intro k member answers length
    by_cases other : k = o
    · subst other
      have done := done member
      rw [count_snoc_self, List.drop_eq_nil_of_le (by omega), List.drop_eq_nil_of_le (by omega),
        List.take_of_length_le (by omega), List.take_of_length_le (by omega)]
      exact ⟨rfl, rfl⟩
    · rw [count_snoc_of_ne order other]
      exact ⟨rfl, rfl⟩
  refine ⟨h.orderly, h.confined, fun k member => ?_, fun k member => ?_, h.strangers,
    h.clock.still fun member => ?_⟩
  · rw [(same k member ((task k).length_answers s₀ (worker k))).1]
    exact h.courses k member
  · rw [(same k member ((task k).length_answers s₀ (worker k))).2]
    exact h.heard k member
  · have done := done member
    omega

/-- A turn of an owner that is in the middle of its task brings the answer that is due, and leaves the other tasks
    where they stand. -/
theorem Apart.onward (h : Apart s₀ owners task worker order p)
    (ready : ∀ o ∈ owners, (task o).Ready s₀ o (worker o))
    (disjoint : ∀ o ∈ owners, ∀ o' ∈ owners, o ≠ o' → ∀ slot, (task o).slots slot → ¬ (task o').slots slot)
    (small : p.system.runtime.clock.now < lockBit - 1) {o : OwnerId} (member : o ∈ owners)
    {a : Response α ε} {rest : List (Response α ε)}
    (due : ((task o).answers s₀ (worker o)).drop (order.count o) = a :: rest) :
    Apart s₀ owners task worker (order ++ [o]) (p.turn o) := by
  have course := h.courses o member
  rw [due] at course
  obtain ⟨request, s', asks, answered, course', confined, now⟩ := course.turn (ready o member) h.orderly h.confined
    small
  have orderly' : s'.Orderly := by
    have turn := h.orderly.act (α := α) (ε := ε) o (.call request)
    rw [show p.system.act o (.call request) = _ from answered] at turn
    exact h.orderly.turn turn
  -- The turn leaves the workers of the others as they are, and their slots.
  have others : ∀ k, k ≠ o → s'.worker? k = p.system.worker? k := by
    intro k other
    have apart : (.act o (.call request) : Action α ε).owner? ≠ some k := fun same =>
      other (Option.some.inj same).symm
    have still := System.worker?_step_of_ne (s := p.system) apart
    rwa [answered] at still
  -- The answer is the one that comes next in the list, and the task ends if it is the last one.
  have length := (task o).length_answers (α := α) (ε := ε) s₀ (worker o)
  have next : ((task o).answers (α := α) (ε := ε) s₀ (worker o)).drop (order.count o + 1) = rest := by
    rw [← List.tail_drop, due]
    rfl
  have told : ((task o).answers (α := α) (ε := ε) s₀ (worker o))[order.count o]? = some a := by
    rw [← Nat.add_zero (order.count o), ← List.getElem?_drop, due]
    rfl
  have before : order.count o < (task o).steps s₀ := length ▸ (List.getElem?_eq_some_iff.mp told).1
  have last : rest.isEmpty = true ↔ (task o).steps s₀ ≤ order.count o + 1 := by
    rw [List.isEmpty_iff, ← next, List.drop_eq_nil_iff, length]
  rw [turn_eq asks answered]
  refine ⟨orderly', h.confined.trans (confined.mono fun slot own => ⟨o, member, own⟩), fun k memberK => ?_,
    fun k memberK => ?_, fun k stranger => ?_, ?_⟩
  · by_cases other : k = o
    · subst other
      simp only [↓reduceIte, count_snoc_self, next]
      exact course'
    · simp only [if_neg other, count_snoc_of_ne order other]
      exact (h.courses k memberK).beside h.confined.slotOf (others k other) orderly' confined
        (disjoint k memberK o member other)
  · by_cases other : k = o
    · subst other
      simp only [↓reduceIte, count_snoc_self, List.take_add_one, told, h.heard k member]
      rfl
    · simp only [if_neg other, count_snoc_of_ne order other]
      exact h.heard k memberK
  · have other : k ≠ o := fun same => stranger (same ▸ member)
    simp only [if_neg other]
    exact h.strangers k stranger
  · by_cases ends : rest.isEmpty = true
    · rw [if_pos ends] at now
      have atEnd := last.mp ends
      exact now ▸ h.clock.finish member (by omega)
    · rw [if_neg ends] at now
      have short := mt last.mpr ends
      exact now ▸ h.clock.still fun _ => by omega

theorem Apart.turn (h : Apart s₀ owners task worker order p)
    (ready : ∀ o ∈ owners, (task o).Ready s₀ o (worker o))
    (disjoint : ∀ o ∈ owners, ∀ o' ∈ owners, o ≠ o' → ∀ slot, (task o).slots slot → ¬ (task o').slots slot)
    (small : p.system.runtime.clock.now < lockBit - 1) (o : OwnerId) :
    Apart s₀ owners task worker (order ++ [o]) (p.turn o) := by
  by_cases member : o ∈ owners
  · cases due : ((task o).answers (α := α) (ε := ε) s₀ (worker o)).drop (order.count o) with
    | cons a rest => exact h.onward ready disjoint small member due
    | nil =>
      have course := h.courses o member
      rw [due] at course
      rw [turn_of_finished course.finished_of_nil.1]
      refine h.idle fun _ => ?_
      rw [← (task o).length_answers (α := α) (ε := ε) s₀ (worker o)]
      exact List.drop_eq_nil_iff.mp due
  · rw [turn_of_finished (h.strangers o member)]
    exact h.idle fun own => absurd own member

theorem Apart.run (ready : ∀ o ∈ owners, (task o).Ready s₀ o (worker o)) (orderly : s₀.Orderly)
    (disjoint : ∀ o ∈ owners, ∀ o' ∈ owners, o ≠ o' → ∀ slot, (task o).slots slot → ¬ (task o').slots slot)
    (time : (Interplay.start (α := α) (ε := ε) s₀ owners task).InTime order) :
    Apart s₀ owners task worker order ((Interplay.start (α := α) (ε := ε) s₀ owners task).run order) := by
  induction order using List.reverseRecOn with
  | nil => exact .start ready orderly
  | append_singleton order o ih =>
    have small := time order.length (by simp)
    rw [List.take_left] at small
    have before := ih <| forall_take_of_append
      (P := fun pre => ((Interplay.start (α := α) (ε := ε) s₀ owners task).run pre).system.runtime.clock.now <
        lockBit - 1) time
    rw [Interplay.run, List.foldl_append]
    exact before.turn ready disjoint small o

/-! ## The order makes no difference -/

/-- Every owner has had as many turns as its task takes. -/
def Complete (s₀ : System) (owners : List OwnerId) (task : OwnerId → Task) (order : List OwnerId) : Prop :=
  ∀ o ∈ owners, (task o).steps s₀ ≤ order.count o

instance (s₀ : System) (owners : List OwnerId) (task : OwnerId → Task) (order : List OwnerId) :
    Decidable (Complete s₀ owners task order) :=
  inferInstanceAs (Decidable (∀ o ∈ owners, _ ≤ _))

/-- Each task has been answered, and has left the fields under its slots, as if its program had gone directly to
    memory as it was at the beginning; the other fields are as they were. -/
structure Settled (s₀ : System) (owners : List OwnerId) (task : OwnerId → Task) (worker : OwnerId → Worker)
    (p : Interplay α ε) : Prop where
  heard : ∀ o ∈ owners, p.heard o = (task o).answers s₀ (worker o)
  words : ∀ o ∈ owners, ∀ l, (task o).slots (s₀.runtime.table.slotOf l) →
    p.system.runtime.memory.words l = ((task o).program.direct s₀.runtime.memory.words).2 l
  untouched : ∀ l, (∀ o ∈ owners, ¬ (task o).slots (s₀.runtime.table.slotOf l)) →
    p.system.runtime.memory.words l = s₀.runtime.memory.words l
  shape : s₀.runtime.memory.SameShape p.system.runtime.memory
  clock : p.system.runtime.clock.now = s₀.runtime.clock.now + owners.countP fun o => (task o).wrote s₀

theorem Apart.settled (h : Apart s₀ owners task worker order p) (distinct : owners.Nodup)
    (complete : Complete s₀ owners task order) : Settled s₀ owners task worker p where
  heard o member := by
    rw [h.heard o member]
    exact List.take_of_length_le ((task o).length_answers s₀ (worker o) ▸ complete o member)
  words o member := by
    have course := h.courses o member
    rw [List.drop_eq_nil_of_le ((task o).length_answers s₀ (worker o) ▸ complete o member)] at course
    exact course.finished_of_nil.2
  untouched l outside := h.confined.words l fun ⟨o, member, own⟩ => outside o member own
  shape := h.confined.shape
  clock := h.clock.complete distinct complete

theorem Settled.words_eq {p' : Interplay α ε} (h : Settled s₀ owners task worker p)
    (h' : Settled s₀ owners task worker p') : p'.system.runtime.memory.words = p.system.runtime.memory.words := by
  funext l
  by_cases own : ∃ o ∈ owners, (task o).slots (s₀.runtime.table.slotOf l)
  · obtain ⟨o, member, own⟩ := own
    exact (h'.words o member l own).trans (h.words o member l own).symm
  · have outside : ∀ o ∈ owners, ¬ (task o).slots (s₀.runtime.table.slotOf l) := fun o member here =>
      own ⟨o, member, here⟩
    exact (h'.untouched l outside).trans (h.untouched l outside).symm

end Interplay

/-- In any run of any contexts, whatever faults they meet, let no slot be held.  Let some contexts that are between
    calls run an attempt each, whose programs keep to disjoint sets of slots, in any order of their steps.
    Then each step is answered as if the program went directly to memory as it is now, so no access aborts, and
    each commit answers that it has succeeded; when all are at their ends, memory and the clock are as the
    programs make them; and another order gives the same answers, the same memory and the same clock.

A commit that cannot be counted is a fault, after it has happened; a counter is full after as many steps as it
can count. -/
theorem independent_attempts_commute {settings : Settings} {r : Runtime} (new : Runtime.new? settings = .ok r)
    (m : Memory) (before : List (Action α ε)) (announced : before.countP Action.isAnnounce < lockBit)
    (clock : ∀ n ≤ before.length,
      ((Chronicle.start r m).run (before.take n)).system.runtime.clock.now < lockBit - 1)
    {s : System} (reached : s = ((Chronicle.start r m).run before).system) (unlocked : s.runtime.table.Unlocked)
    (owners : List OwnerId) (distinct : owners.Nodup) (worker : OwnerId → Worker)
    (here : ∀ o ∈ owners, s.worker? o = some (worker o)) (idle : ∀ o ∈ owners, (worker o).isBusy = false)
    (task : OwnerId → Task)
    (disjoint : ∀ o ∈ owners, ∀ o' ∈ owners, o ≠ o' → ∀ slot, (task o).slots slot → ¬ (task o').slots slot)
    (keeps : ∀ o ∈ owners, (task o).program.KeepsTo fun l => (task o).slots (s.runtime.table.slotOf l))
    (inRange : ∀ o ∈ owners, (task o).program.InRange s.runtime.memory s.runtime.memory.words)
    (order order' : List OwnerId) (time : (Interplay.start (α := α) (ε := ε) s owners task).InTime order)
    (time' : (Interplay.start (α := α) (ε := ε) s owners task).InTime order') :
    let out := (Interplay.start (α := α) (ε := ε) s owners task).run order
    let out' := (Interplay.start (α := α) (ε := ε) s owners task).run order'
    (∀ o ∈ owners, out.heard o = ((task o).answers s (worker o)).take (order.count o)) ∧
    (before.length + 1 < wordRange → ∀ o ∈ owners,
      (task o).ending (α := α) (ε := ε) s (worker o) = .replied (.verdict true)) ∧
    (Interplay.Complete s owners task order → Interplay.Settled s owners task worker out) ∧
    (Interplay.Complete s owners task order → Interplay.Complete s owners task order' →
      (∀ o ∈ owners, out'.heard o = out.heard o) ∧
      out'.system.runtime.memory.words = out.system.runtime.memory.words ∧
      out'.system.runtime.clock.now = out.system.runtime.clock.now) := by
  intro out out'
  have orderly : s.Orderly := reached ▸ (Chronicle.orderly_run new m announced).1
  have timely : s.Timely := reached ▸ Chronicle.timely_run new m announced clock
  have small : s.runtime.clock.now < lockBit := by
    have now := clock before.length (Nat.le_refl _)
    rw [List.take_length, ← reached] at now
    omega
  have ready : ∀ o ∈ owners, (task o).Ready s o (worker o) := fun o member =>
    { here := here o member
      idle := idle o member
      small
      unlocked := unlocked.exists_stamp
      timely := timely.free
      unheld := orderly.unheld unlocked (here o member)
      keeps := keeps o member
      inRange := inRange o member }
  have apart := Interplay.Apart.run ready orderly disjoint time
  have apart' := Interplay.Apart.run ready orderly disjoint time'
  refine ⟨apart.heard, fun short o member => ?_, apart.settled distinct, fun complete complete' => ?_⟩
  · have counted := Chronicle.atMost_run new m announced (reached ▸ here o member)
    obtain ⟨tally, counts⟩ := counted.countCommit short (task o).mode (!(task o).wrote s)
    rw [Task.ending, counts]
  · have settled := apart.settled distinct complete
    have settled' := apart'.settled distinct complete'
    exact ⟨fun o member => (settled'.heard o member).trans (settled.heard o member).symm,
      settled.words_eq settled', settled'.clock.trans settled.clock.symm⟩

/-- Two contexts add one to a field each, the second in the elastic mode, in turns and one after the other. -/
theorem independent_attempts_commute_of_two :
    let before : List (Action Unit Unit) := [.announce, .announce, .register ⟨1⟩, .register ⟨2⟩]
    let s := ((Chronicle.start smallRuntime pair).run before).system
    let increment (l : Location) : Program := .read true l .u64 fun v =>
      .write l (.u64 (v.encode + 1)) .done
    let task (o : OwnerId) : Task :=
      if o = ⟨1⟩ then ⟨0, .regular, increment ⟨16, 0⟩, (· = 14)⟩
      else ⟨1, .elastic, increment ⟨16, 1⟩, (· = 13)⟩
    let play := Interplay.start (α := Unit) (ε := Unit) s [⟨1⟩, ⟨2⟩] task
    let inTurns : List OwnerId := [⟨2⟩, ⟨1⟩, ⟨1⟩, ⟨2⟩, ⟨2⟩, ⟨1⟩, ⟨2⟩, ⟨1⟩]
    let inSequence : List OwnerId := [⟨1⟩, ⟨1⟩, ⟨1⟩, ⟨1⟩, ⟨2⟩, ⟨2⟩, ⟨2⟩, ⟨2⟩]
    ((play.run inTurns).system.runtime.memory.words ⟨16, 0⟩ = 2 ∧
      (play.run inTurns).system.runtime.memory.words ⟨16, 1⟩ = 3) ∧
      (play.run inTurns).heard ⟨1⟩ = [.replied .done, .replied (.value (.u64 1)), .replied .done,
        .replied (.verdict true)] ∧
      (play.run inSequence).heard ⟨1⟩ = (play.run inTurns).heard ⟨1⟩ ∧
      (play.run inSequence).system.runtime.memory.words = (play.run inTurns).system.runtime.memory.words := by
  intro before s increment task play inTurns inSequence
  have there : (s.worker? ⟨1⟩).isSome = true ∧ (s.worker? ⟨2⟩).isSome = true := by decide +kernel
  obtain ⟨w₁, here₁⟩ := Option.isSome_iff_exists.mp there.1
  obtain ⟨w₂, here₂⟩ := Option.isSome_iff_exists.mp there.2
  have idle : w₁.isBusy = false ∧ w₂.isBusy = false := by
    have idles : (∀ w ∈ s.worker? ⟨1⟩, w.isBusy = false) ∧ ∀ w ∈ s.worker? ⟨2⟩, w.isBusy = false := by
      decide +kernel
    exact ⟨idles.1 w₁ here₁, idles.2 w₂ here₂⟩
  have two : ∀ {P : OwnerId → Prop}, P ⟨1⟩ → P ⟨2⟩ → ∀ o ∈ [(⟨1⟩ : OwnerId), ⟨2⟩], P o := by
    intro P first second o member
    simp only [List.mem_cons, List.not_mem_nil, or_false] at member
    rcases member with rfl | rfl
    · exact first
    · exact second
  have placed : s.runtime.table.slotOf ⟨16, 0⟩ = 14 ∧ s.runtime.table.slotOf ⟨16, 1⟩ = 13 := by decide +kernel
  have exist : s.runtime.memory.Has ⟨16, 0⟩ ∧ s.runtime.memory.Has ⟨16, 1⟩ := by decide +kernel
  have complete : Interplay.Complete s [⟨1⟩, ⟨2⟩] task inTurns ∧
      Interplay.Complete s [⟨1⟩, ⟨2⟩] task inSequence := by decide +kernel
  obtain ⟨answers, ending, settled, same⟩ := independent_attempts_commute (s := s) smallRuntime_new pair before
    (by decide) (by decide +kernel) rfl (by decide +kernel) [⟨1⟩, ⟨2⟩] (by decide)
    (fun o => if o = ⟨1⟩ then w₁ else w₂) (two here₁ here₂) (two idle.1 idle.2) task
    (two (two (fun other => absurd rfl other) (fun _ slot own other => by cases own.symm.trans other))
      (two (fun _ slot own other => by cases own.symm.trans other) fun other => absurd rfl other))
    (two ⟨placed.1, fun _ => ⟨placed.1, trivial⟩⟩ ⟨placed.2, fun _ => ⟨placed.2, trivial⟩⟩)
    (two ⟨exist.1, exist.1, trivial⟩ ⟨exist.2, exist.2, trivial⟩) inTurns inSequence (by decide +kernel)
    (by decide +kernel)
  have direct : ((task ⟨1⟩).program.direct s.runtime.memory.words).1 = [.value (.u64 1), .done] ∧
      ((task ⟨1⟩).program.direct s.runtime.memory.words).2 ⟨16, 0⟩ = 2 ∧
      ((task ⟨2⟩).program.direct s.runtime.memory.words).2 ⟨16, 1⟩ = 3 := by decide +kernel
  obtain ⟨told, words, -⟩ := same complete.1 complete.2
  have left := (settled complete.1).words
  have first : (⟨1⟩ : OwnerId) ∈ [(⟨1⟩ : OwnerId), ⟨2⟩] := List.mem_cons_self
  dsimp only [play]
  refine ⟨⟨?_, ?_⟩, ?_, told ⟨1⟩ first, words⟩
  · exact (left ⟨1⟩ first ⟨16, 0⟩ placed.1).trans direct.2.1
  · exact (left ⟨2⟩ (List.mem_cons_of_mem _ (List.mem_singleton_self _)) ⟨16, 1⟩ placed.2).trans direct.2.2
  · rw [(settled complete.1).heard ⟨1⟩ first, Task.answers, direct.1, ending (by decide) ⟨1⟩ first]
    rfl

end TransactionalMemory
