import Mathlib.Data.UInt
import TransactionalMemory.Proofs.Elasticity
import TransactionalMemory.Proofs.Serializability

/-! # No modification is lost

To modify a field is to read it and to write what a function makes of the value; others may commit in
between.  In every mode, what a commit leaves in a field that its attempt has only modified is what the
functions make, one after the other, of the word that was there just before, and so a counter that is
only ever added to is the sum of all that was added (`no_modification_lost`).

A committed attempt has met memory as it is before the commit with every read that it answers for, and
the read of a modification is always one of these, since the write comes right after it
(`mem_guarded_of_written`).  What is left is that its other reads have returned its own writes, in all
modes (`Candid`).
-/

namespace TransactionalMemory

variable {α ε : Type} {allowed : Mode → Prop} {m₀ : Memory}

/-! ## Modifications -/

/-- What a read and the write right after it do to a field: the value of a kind is changed. -/
structure Modification where
  kind : Kind
  change : Value → Value

def Modification.apply (f : Modification) (word : UInt64) : UInt64 :=
  (f.change (Value.decode word f.kind)).encode

/-- The word that modifications leave, one after the other. -/
def modified (fs : List Modification) (word : UInt64) : UInt64 :=
  fs.foldl (fun word f => f.apply word) word

/-- Among the accesses, the writes to a field are those of the modifications. -/
inductive Modifies (l : Location) : List Access → List Modification → Prop where
  | nil : Modifies l [] []
  | read {rest : List Access} {fs : List Modification} (q : Reading) (later : Modifies l rest fs) :
      Modifies l (.read q :: rest) fs
  /-- Another field may be written in any way. -/
  | write {rest : List Access} {fs : List Modification} (k : Location) (v : Value) (other : k ≠ l)
      (later : Modifies l rest fs) : Modifies l (.write k v :: rest) fs
  | modify {rest : List Access} {fs : List Modification} (q : Reading) (change : Value → Value)
      (here : q.location = l) (later : Modifies l rest fs) :
      Modifies l (.read q :: .write l (change q.value) :: rest) (⟨q.kind, change⟩ :: fs)

/-- If the reads of the modifications find what execution finds there, so do the functions. -/
theorem Modifies.execute_eq {l : Location} {accesses : List Access} {fs : List Modification}
    (modifies : Modifies l accesses fs) {m : Words}
    (found : ∀ before q v after, accesses = before ++ .read q :: .write q.location v :: after →
      q.HoldsIn (execute before m)) : execute accesses m l = modified fs (m l) := by
  induction modifies generalizing m with
  | nil => rfl
  | read q later ih =>
    exact ih fun before q' v after split => found (.read q :: before) q' v after (by rw [split]; rfl)
  | write k v other later ih =>
    have rest := ih (m := m.put k v.encode) fun before q v' after split =>
      found (.write k v :: before) q v' after (by rw [split]; rfl)
    rw [Words.put_other other.symm] at rest
    exact rest
  | @modify rest fs q change here later ih =>
    have holds : Value.decode (m l) q.kind = q.value := by
      rw [← here]
      exact found [] q (change q.value) rest (by rw [here]; rfl)
    have remaining := ih (m := m.put l (change q.value).encode) fun before q' v' after split =>
      found (.read q :: .write l (change q.value) :: before) q' v' after (by rw [split]; rfl)
    rw [Words.put_self, ← holds] at remaining
    rw [← holds]
    exact remaining

/-- An attempt answers for a read from memory if it writes right after it. -/
theorem mem_guarded_of_written {k : Nat} (pos : 0 < k) {before after : List Access} {q : Reading}
    {l : Location} {v : Value} (memory : q.source ≠ .buffered) :
    q ∈ guarded k (before ++ .read q :: .write l v :: after) := by
  by_cases written : ∃ a ∈ before, a.isRead = false
  · rw [guarded_append written, ← List.singleton_append, fromMemory_append,
      fromMemory_of_not_buffered memory]
    exact List.mem_append_right _ (List.mem_append_left _ (List.mem_singleton_self q))
  · -- Nothing is written before, so the read is the last one before the first write.
    have reads : ∀ a ∈ before, a.isRead = true := fun a member =>
      eq_true_of_ne_false fun write => written ⟨a, member, write⟩
    have first : (before ++ .read q :: .write l v :: after).takeWhile Access.isRead =
        before ++ [.read q] := by
      rw [List.takeWhile_append_of_pos reads]
      simp [List.takeWhile, Access.isRead]
    rw [guarded, first, fromMemory_append, fromMemory_of_not_buffered memory]
    exact List.mem_append_left _ (mem_latest List.getElem?_concat_length (by simp; omega))

theorem holdsIn_of_replays_append {q : Reading} {after : List Access} :
    ∀ (before : List Access) {m : Words}, Replays m (before ++ .read q :: after) →
      q.HoldsIn (execute before m)
  | [], _, replays => replays.1
  | .read _ :: rest, _, replays => holdsIn_of_replays_append rest replays.2
  | .write .. :: rest, _, replays => holdsIn_of_replays_append rest replays

/-! ## What reads return -/

/-- A read of an own write returns what the accesses before it have written, whatever the memory; a
    field that is read from memory they have left as it was. -/
def Reading.Follows (q : Reading) (before : List Access) : Prop :=
  (q.source = .buffered → ∀ m, q.HoldsIn (execute before m)) ∧
    (q.source ≠ .buffered → ∀ m, execute before m q.location = m q.location)

theorem Reading.Follows.holdsIn {q : Reading} {before : List Access} (follows : q.Follows before)
    {m : Words} (memory : q.source ≠ .buffered → q.HoldsIn m) : q.HoldsIn (execute before m) := by
  by_cases buffered : q.source = .buffered
  · exact follows.1 buffered m
  · rw [Reading.HoldsIn, follows.2 buffered m]
    exact memory buffered

/-- A log of writes is what the accesses come to, and each read follows the accesses before it. -/
structure Candid (accesses : List Access) (writes : RedoLog) : Prop where
  effect : ∀ m, execute accesses m = overlay writes.entries m
  follows : ∀ before q after, accesses = before ++ .read q :: after → q.Follows before

namespace Candid

variable {accesses : List Access} {writes writes' : RedoLog} {slotOf : Location → Nat}

theorem start : Candid [] {} where
  effect _ := rfl
  follows _ _ _ split := absurd split.symm (List.append_ne_nil_of_right_ne_nil _ nofun)

theorem write (c : Candid accesses writes) (wf : writes.WellFormed slotOf) {l : Location} {v : Value}
    {stamp : Option Nat} (appended : RedoLog.Appended writes writes' slotOf l v stamp) :
    Candid (accesses ++ [.write l v]) writes' where
  effect m := by
    rw [execute_append, execute_write, c.effect m, RedoLog.overlay_append wf appended]
  follows before q after split := by
    rcases snoc_eq_append_cons split with ⟨-, last⟩ | ⟨after', earlier⟩
    · cases last
    · exact c.follows before q after' earlier

theorem read (c : Candid accesses writes) {q : Reading} (follows : q.Follows accesses) :
    Candid (accesses ++ [.read q]) writes where
  effect m := by rw [execute_append, execute_read, c.effect m]
  follows before q' after split := by
    rcases snoc_eq_append_cons split with ⟨rfl, last⟩ | ⟨after', earlier⟩
    · cases last
      exact follows
    · exact c.follows before q' after' earlier

theorem follows_own (c : Candid accesses writes) (wf : writes.WellFormed slotOf) {q : Reading}
    {v : Value} (logged : writes.value? (slotOf q.location) q.location = some v)
    (value : q.value = v.reinterpret q.kind) (source : q.source = .buffered) : q.Follows accesses := by
  refine ⟨fun _ m => ?_, fun memory => absurd source memory⟩
  rw [Reading.HoldsIn, c.effect m, RedoLog.overlay_apply wf, logged, value, Value.reinterpret_eq_decode]

theorem follows_memory (c : Candid accesses writes) (wf : writes.WellFormed slotOf) {q : Reading}
    (unlogged : writes.value? (slotOf q.location) q.location = none) (source : q.source ≠ .buffered) :
    q.Follows accesses := by
  refine ⟨fun buffered => absurd buffered source, fun _ m => ?_⟩
  rw [c.effect m, RedoLog.overlay_apply wf, unlogged]

end Candid

/-- The attempt is candid while it is active, unless it is to be aborted or its abort was cut off, and
    so were the attempts that have committed. -/
structure Seat.Honest (d : Seat) : Prop where
  attempt : d.context.phase = .active →
    Candid d.attempt.accesses d.context.writes ∨ d.attempt.broken = true ∨ Pending.isAbort d.pending
  commits : ∀ x ∈ d.commits, 0 < x.context.window.capacity ∧
    (x.attempt.broken = false → Candid x.attempt.accesses x.context.writes)

theorem Seat.Honest.of_free {d : Seat} (c : d.Honest) (active : d.context.phase = .active)
    (free : d.pending = none) :
    Candid d.attempt.accesses d.context.writes ∨ d.attempt.broken = true := by
  rcases c.attempt active with candid | broken | abort
  · exact Or.inl candid
  · exact Or.inr broken
  · exact absurd abort (Pending.not_isAbort_of_free free)

namespace Sound

variable {d d' : Seat}

theorem honest_move (h : Sound allowed m₀ d) (move : Move allowed d d') (c : d.Honest) :
    d'.Honest := by
  have wf := h.owning.wellFormed
  cases move with
  | count now published tally conflict extended broken later small stillExtended stillBroken =>
    exact ⟨fun active => (c.attempt active).imp_right (Or.imp_left stillBroken), c.commits⟩
  | turn next noExtension steady =>
    refine ⟨fun active => ?_, c.commits⟩
    rcases c.attempt active with candid | was | abort
    · exact Or.inl candid
    · exact Or.inr (Or.inl was)
    · exact Or.inr (steady active abort).symm
  | suspend next free => exact ⟨fun active => (c.of_free active free).imp_right Or.inl, c.commits⟩
  | adopt candidate next waiting =>
    refine ⟨fun active => ?_, c.commits⟩
    rcases c.attempt active with candid | was | abort
    · exact Or.inl candid
    · exact Or.inr (Or.inl was)
    · rw [waiting] at abort
      cases abort
  | slide free => exact ⟨fun active => (c.of_free active free).imp_right Or.inl, c.commits⟩
  | readOwn l kind v free logged =>
    refine ⟨fun active => (c.of_free active free).imp ?_ Or.inl, c.commits⟩
    intro candid
    exact candid.read (candid.follows_own wf logged rfl (Seat.source_of_logged logged))
  | readHeld l kind v stamp free held unlogged =>
    refine ⟨fun active => (c.of_free active free).imp ?_ Or.inl, c.commits⟩
    intro candid
    exact candid.read (candid.follows_memory wf unlogged (Seat.source_of_unlogged unlogged))
  | readFree l kind v stamp free slow unheld =>
    have unlogged := wf.value?_of_not_held unheld
    refine ⟨fun active => (c.of_free active free).imp ?_ Or.inl, c.commits⟩
    intro candid
    exact candid.read (candid.follows_memory wf unlogged (Seat.source_of_unlogged unlogged))
  | readFast l kind v stamp free fast unheld =>
    have unlogged := wf.value?_of_not_held unheld
    refine ⟨fun active => (c.of_free active free).imp ?_ Or.inl, c.commits⟩
    intro candid
    exact candid.read (candid.follows_memory wf unlogged (Seat.source_of_unlogged unlogged))
  | writeHeld l v writes free exist word logged =>
    exact ⟨fun active => (c.of_free active free).imp (·.write wf (wf.append logged)) Or.inl, c.commits⟩
  | writeFree l v stamp writes free active exist slow word logged =>
    exact ⟨fun _ => (c.of_free active free).imp (·.write wf (wf.append logged)) Or.inl, c.commits⟩
  | writeFirst l v stamp writes free active exist fast word logged =>
    exact ⟨fun _ => (c.of_free active free).imp (·.write wf (wf.append logged)) Or.inl, c.commits⟩
  | writeStale => exact ⟨fun _ => Or.inr (Or.inr trivial), c.commits⟩
  | begin => exact ⟨fun _ => Or.inl .start, c.commits⟩
  | abandon => exact ⟨Phase.noConfusion, c.commits⟩
  | commitReads => exact ⟨Phase.noConfusion, c.commits⟩
  | commitWrites stamp table memory free active =>
    refine ⟨Phase.noConfusion, ?_⟩
    intro x member
    cases List.mem_append.mp member with
    | inl member => exact c.commits x member
    | inr single =>
      rw [List.mem_singleton.mp single]
      refine ⟨h.room, fun unbroken => (c.of_free active free).resolve_right fun broken => ?_⟩
      cases unbroken.symm.trans broken

theorem honest_moves (h : Sound allowed m₀ d) (moves : Moves allowed d d') (c : d.Honest) :
    d'.Honest := by
  induction moves with
  | refl => exact c
  | tail before last ih => exact (h.moves before).honest_move last ih

end Sound

namespace Chronicle

/-- All workers are honest, and so is the record of commits. -/
structure Honest (t : Chronicle) : Prop where
  seats : ∀ o w, t.system.worker? o = some w → (t.seat o w).Honest
  commits : ∀ x ∈ t.commits, 0 < x.context.window.capacity ∧
    (x.attempt.broken = false → Candid x.attempt.accesses x.context.writes)

variable {t t' : Chronicle}

theorem Honest.change (c : t.Honest) (h : t.Coherent allowed m₀) {new : Bool}
    (change : Change allowed t new t') : t'.Honest := by
  cases change with
  | none => exact c
  | moved owner w d moved =>
    have honest : d.Honest :=
      (h.seats owner w moved.here).sound.honest_moves moved.moves (c.seats owner w moved.here)
    have commits := honest.commits
    rw [← moved.commits] at commits
    refine ⟨?_, commits⟩
    intro o w' there
    by_cases same : o = owner
    · subst same
      rw [(moved.self w' there).1]
      exact honest
    · rw [moved.others o same] at there
      refine ⟨?_, commits⟩
      simp only [seat, moved.attempts o same]
      exact (c.seats o w' there).attempt
  | announced => exact ⟨fun o w there => ⟨(c.seats o w there).attempt, c.commits⟩, c.commits⟩
  | registered owner window =>
    refine ⟨?_, c.commits⟩
    intro o w there
    rw [System.worker?_setWorker] at there
    split at there
    · cases there
      exact ⟨Phase.noConfusion, c.commits⟩
    · exact ⟨(c.seats o w there).attempt, c.commits⟩
  | withdrawn => exact ⟨fun o w there => ⟨(c.seats o w there).attempt, c.commits⟩, c.commits⟩

theorem honest_run {settings : Settings} {r : Runtime} {m : Memory}
    (new : Runtime.new? settings = .ok r) {actions : List (Action α ε)}
    (limits : WithinLimits (start r m).system actions) : ((start r m).run actions).Honest := by
  refine run_rest new Honest (fun coherent change honest => honest.change coherent change) [] actions
    limits ?_
  refine ⟨?_, List.forall_mem_nil _⟩
  intro o w there
  simp [start, System.worker?] at there

/-! ## Commits and modifications -/

/-- What a commit leaves in a field that its attempt has only modified. -/
theorem Coherent.overlay_eq_modified (h : t.Coherent allowed m₀) (c : t.Honest)
    {before after : List Commit} {x : Commit} (split : t.commits = before ++ x :: after)
    (unbroken : x.attempt.broken = false) {l : Location} {fs : List Modification}
    (modifies : Modifies l x.attempt.accesses fs) :
    overlay x.context.writes.entries (committed m₀.words before) l =
      modified fs (committed m₀.words before l) := by
  have member : x ∈ t.commits := by
    rw [split]
    exact List.mem_append_right _ List.mem_cons_self
  obtain ⟨pos, candid⟩ := c.commits x member
  rw [← (candid unbroken).effect]
  refine modifies.execute_eq ?_
  intro earlier q v later accesses
  by_cases elastic : x.context.mode = .elastic
  · -- An elastic attempt answers for the read that comes right before a write.
    refine ((candid unbroken).follows earlier q _ accesses).holdsIn fun memory => ?_
    refine h.annals.guards before x after split elastic unbroken q ?_
    rw [accesses]
    exact mem_guarded_of_written pos memory
  · have replays := h.annals.replayed before x after split elastic
    rw [accesses] at replays
    exact holdsIn_of_replays_append earlier replays

theorem exists_attempt_of_mem_commits (t : Chronicle) (a : Action α ε) {x : Commit}
    (member : x ∈ (t.step a).commits) : x ∈ t.commits ∨ ∃ o, x.attempt = t.attempts o := by
  cases a with
  | act owner action =>
    cases here : t.system.worker? owner with
    | none =>
      simp only [step, here] at member
      exact Or.inl member
    | some w =>
      rw [step_act here] at member
      simp only [Seat.next] at member
      split at member
      · cases List.mem_append.mp member with
        | inl member => exact Or.inl member
        | inr single =>
          rw [List.mem_singleton.mp single]
          exact Or.inr ⟨owner, rfl⟩
      · exact Or.inl member
  | _ => exact Or.inl member

/-- Owner ids are handed out one after the other, so only those that were announced can have counters. -/
theorem countsAborts_of_announced {settings : Settings} {r : Runtime} {m : Memory}
    (new : Runtime.new? settings = .ok r) {actions : List (Action α ε)}
    (limits : WithinLimits (start r m).system actions)
    (counts : ∀ id ≤ actions.countP Action.isAnnounce, CountsAborts (start r m).system actions ⟨id⟩)
    (owner : OwnerId) : CountsAborts (start r m).system actions owner := by
  by_cases announced : owner.id ≤ actions.countP Action.isAnnounce
  · exact counts owner.id announced
  · intro n le w here
    rw [← List.take_append_drop n actions] at limits
    obtain ⟨coherent, ids, -⟩ := coherent_run_any new limits.of_append
    rw [← system_run] at here
    have known := coherent.known owner w here
    have fewer := (List.take_sublist n actions).countP_le (p := Action.isAnnounce)
    omega

theorem unbroken_of_countsAborts {settings : Settings} {r : Runtime} {m : Memory}
    (new : Runtime.new? settings = .ok r) {actions : List (Action α ε)}
    (limits : WithinLimits (start r m).system actions)
    (counts : ∀ owner, CountsAborts (start r m).system actions owner) :
    ∀ x ∈ ((start r m).run actions).commits, x.attempt.broken = false := by
  induction actions using List.reverseRecOn with
  | nil => exact List.forall_mem_nil _
  | append_singleton actions a ih =>
    have earlier : ∀ owner, CountsAborts (start r m).system actions owner := fun owner =>
      (counts owner).of_append
    intro x member
    rw [run_snoc] at member
    rcases exists_attempt_of_mem_commits _ a member with member | ⟨o, same⟩
    · exact ih limits.of_append earlier x member
    · rw [same]
      exact whole_of_countsAborts new limits.of_append (earlier o)

end Chronicle

/-! ## Counters -/

/-- The kinds whose values add up and wrap around. -/
def Kind.isInteger : Kind → Bool
  | .i8 | .i16 | .i32 | .i64 | .u8 | .u16 | .u32 | .u64 => true
  | _ => false

/-- The sum of values of a kind. -/
def Value.sum (kind : Kind) (ds : List Value) : Value := ds.foldl Value.add (zero kind)

/-- Decoding to an integer kind turns addition of words into addition of values. -/
theorem Value.add_decode {kind : Kind} (integer : kind.isInteger = true) (a b : UInt64) :
    (decode a kind).add (decode b kind) = decode (a + b) kind := by
  cases kind with
  | i8 | i16 | i32 | i64 | u8 | u16 | u32 | u64 => simp [decode, add, reinterpret, Value.kind]
  | _ => cases integer

theorem Value.eq_decode {v : Value} {kind : Kind} (same : v.kind = kind) :
    v = decode v.encode kind := by rw [← same, decode_encode]

theorem Value.foldl_add {kind : Kind} (integer : kind.isInteger = true) {ds : List Value}
    (kinds : ∀ d ∈ ds, d.kind = kind) (a : UInt64) :
    ds.foldl add (decode a kind) = decode (a + (ds.map encode).sum) kind := by
  induction ds generalizing a with
  | nil => simp
  | cons d ds ih =>
    have rest := ih (fun e member => kinds e (List.mem_cons_of_mem _ member)) (a + d.encode)
    rw [List.foldl_cons, eq_decode (kinds d List.mem_cons_self), add_decode integer, rest,
      ← eq_decode (kinds d List.mem_cons_self), List.map_cons, List.sum_cons, UInt64.add_assoc]

/-- A value, increased step by step, is increased by the sum. -/
theorem Value.foldl_add_eq_add_sum {kind : Kind} (integer : kind.isInteger = true) {ds : List Value}
    (kinds : ∀ d ∈ ds, d.kind = kind) (word : UInt64) :
    ds.foldl add (decode word kind) = (decode word kind).add (sum kind ds) := by
  rw [sum, zero, foldl_add integer kinds, foldl_add integer kinds, add_decode integer, UInt64.zero_add]

/-- Among the accesses, the writes to a field add amounts of a kind to it. -/
def Adds (l : Location) (kind : Kind) (accesses : List Access) (ds : List Value) : Prop :=
  Modifies l accesses (ds.map fun d => ⟨kind, (·.add d)⟩) ∧ ∀ d ∈ ds, d.kind = kind

theorem decode_modified {kind : Kind} (integer : kind.isInteger = true) {ds : List Value}
    (kinds : ∀ d ∈ ds, d.kind = kind) (word : UInt64) :
    Value.decode (modified (ds.map fun d => ⟨kind, (·.add d)⟩) word) kind =
      ds.foldl Value.add (Value.decode word kind) := by
  induction ds generalizing word with
  | nil => rfl
  | cons d ds ih =>
    have rest := fun word => ih (fun e member => kinds e (List.mem_cons_of_mem _ member)) word
    have added : (Value.decode word kind).add d = Value.decode (word + d.encode) kind := by
      rw [← Value.add_decode integer, ← Value.eq_decode (kinds d List.mem_cons_self)]
    -- What one addition stores is read back as the value that was stored.
    have stored : Value.decode ((Value.decode word kind).add d).encode kind =
        (Value.decode word kind).add d := by
      rw [added, ← Value.eq_decode (Value.kind_decode _ _)]
    rw [List.foldl_cons, ← stored, ← rest]
    rfl

/-! ## No modification is lost -/

/-- In a run of any contexts, a commit leaves in every field that its attempt has only modified what the
    functions make of the word that the field held just before; and an integer that committed attempts
    have only added to is its first value and the sum of all that they added. -/
theorem no_modification_lost {settings : Settings} {r : Runtime}
    (new : Runtime.new? settings = .ok r) (m : Memory) (actions : List (Action α ε))
    (limits : WithinLimits (Chronicle.start r m).system actions)
    (counts : ∀ owner, CountsAborts (Chronicle.start r m).system actions owner) :
    (∀ before owner action after, actions = before ++ .act owner action :: after →
      let t := (Chronicle.start r m).run before
      let t' := t.step (.act owner action)
      ∀ w w', t.system.worker? owner = some w → w.context.phase = .active →
        w.context.writes.isEmpty = false → t'.system.worker? owner = some w' →
        w'.context.phase = .committed →
        ∀ l fs, Modifies l (t.attempts owner).accesses fs →
          t'.system.runtime.memory.words l = modified fs (t.system.runtime.memory.words l)) ∧
    (let t := (Chronicle.start r m).run actions
      ∀ l kind, kind.isInteger = true → ∀ ds : Commit → List Value,
        (∀ x ∈ t.commits, Adds l kind x.attempt.accesses (ds x)) →
        Value.decode (t.system.runtime.memory.words l) kind =
          (Value.decode (m.words l) kind).add (Value.sum kind (t.commits.flatMap ds))) := by
  constructor
  · intro before owner action after split t t' w w' here active wrote there done l fs modifies
    have upTo : actions = (before ++ [.act owner action]) ++ after := by simp [split]
    rw [upTo] at limits counts
    have run : t' = (Chronicle.start r m).run (before ++ [.act owner action]) := by
      rw [Chronicle.run_append, Chronicle.run_singleton]
    have coherent := (Chronicle.coherent_run_any new limits.of_append.of_append).1
    have coherent' : t'.Coherent (fun _ => True) m := run ▸ (Chronicle.coherent_run_any new limits.of_append).1
    have honest' : t'.Honest := run ▸ Chronicle.honest_run new limits.of_append
    have recorded := Chronicle.commits_step here active wrote there done
    have unbroken : (t.attempts owner).broken = false :=
      Chronicle.whole_of_countsAborts new limits.of_append.of_append (counts owner).of_append.of_append
    rw [coherent'.ledger.words, recorded, committed_append, committed_singleton, coherent.ledger.words]
    exact coherent'.overlay_eq_modified honest' recorded unbroken modifies
  · intro t l kind integer ds adds
    have coherent : t.Coherent (fun _ => True) m := (Chronicle.coherent_run_any new limits).1
    have honest : t.Honest := Chronicle.honest_run new limits
    have unbroken := Chronicle.unbroken_of_countsAborts new limits counts
    -- Commit by commit, the amounts so far have been added.
    have sofar : ∀ before after, t.commits = before ++ after →
        Value.decode (committed m.words before l) kind =
          (before.flatMap ds).foldl Value.add (Value.decode (m.words l) kind) := by
      intro before
      induction before using List.reverseRecOn with
      | nil => exact fun _ _ => rfl
      | append_singleton before x ih =>
        intro after split
        rw [List.append_assoc, List.singleton_append] at split
        have member : x ∈ t.commits := by
          rw [split]
          exact List.mem_append_right _ List.mem_cons_self
        obtain ⟨modifies, kinds⟩ := adds x member
        rw [committed_append, committed_singleton,
          coherent.overlay_eq_modified honest split (unbroken x member) modifies,
          decode_modified integer kinds, ih (x :: after) split, List.flatMap_append, List.foldl_append,
          List.flatMap_singleton]
    have kinds : ∀ d ∈ t.commits.flatMap ds, d.kind = kind := fun d member => by
      obtain ⟨x, memberX, memberD⟩ := List.mem_flatMap.mp member
      exact (adds x memberX).2 d memberD
    rw [coherent.ledger.words, sofar t.commits [] (List.append_nil _).symm,
      Value.foldl_add_eq_add_sum integer kinds]

/-- Two contexts add to one field at the same time: the elastic one commits first, the regular one has
    to start again. -/
theorem no_modification_lost_of_two :
    let actions : List (Action Unit Unit) :=
      [.announce, .announce, .register ⟨1⟩, .register ⟨2⟩,
       .act ⟨1⟩ (.call (.start 0 .elastic)), .act ⟨2⟩ (.call (.start 0 .regular)),
       .act ⟨2⟩ (.call (.read ⟨16, 0⟩ .u64)), .act ⟨1⟩ (.call (.read ⟨16, 0⟩ .u64)),
       .act ⟨1⟩ (.call (.write ⟨16, 0⟩ (.u64 6))), .act ⟨1⟩ (.call .commit),
       .act ⟨2⟩ (.call (.write ⟨16, 0⟩ (.u64 8))), .act ⟨2⟩ .resume,
       .act ⟨2⟩ (.call (.start 0 .regular)), .act ⟨2⟩ (.call (.read ⟨16, 0⟩ .u64)),
       .act ⟨2⟩ (.call (.write ⟨16, 0⟩ (.u64 13))), .act ⟨2⟩ (.call .commit)]
    let t := (Chronicle.start smallRuntime pair).run actions
    t.system.runtime.memory.words ⟨16, 0⟩ = 13 ∧
      Value.decode (t.system.runtime.memory.words ⟨16, 0⟩) .u64 =
        (Value.decode (pair.words ⟨16, 0⟩) .u64).add (Value.sum .u64 [.u64 5, .u64 7]) := by
  intro actions t
  have limits : WithinLimits (Chronicle.start smallRuntime pair).system actions :=
    ⟨by decide +kernel, by decide +kernel, by decide⟩
  have counts : ∀ owner, CountsAborts (Chronicle.start smallRuntime pair).system actions owner := by
    refine Chronicle.countsAborts_of_announced smallRuntime_new limits ?_
    unfold CountsAborts
    decide +kernel
  let ds : Commit → List Value := fun x => if x.context.owner = ⟨1⟩ then [.u64 5] else [.u64 7]
  have commits : t.commits.map (fun x => (ds x, x.attempt.accesses)) =
      [([.u64 5], [.read ⟨⟨16, 0⟩, .u64, .u64 1, .free, 0⟩, .write ⟨16, 0⟩ (.u64 6)]),
        ([.u64 7], [.read ⟨⟨16, 0⟩, .u64, .u64 6, .free, 1⟩, .write ⟨16, 0⟩ (.u64 13)])] := by
    decide +kernel
  have adds : ∀ x ∈ t.commits, Adds ⟨16, 0⟩ .u64 x.attempt.accesses (ds x) := by
    intro x member
    have listed := List.mem_map_of_mem (f := fun x => (ds x, x.attempt.accesses)) member
    rw [commits] at listed
    simp only [List.mem_cons, List.not_mem_nil, or_false, Prod.mk.injEq] at listed
    rcases listed with ⟨amounts, accesses⟩ | ⟨amounts, accesses⟩
    · rw [amounts, accesses]
      exact ⟨.modify _ (·.add (.u64 5)) rfl .nil, by decide⟩
    · rw [amounts, accesses]
      exact ⟨.modify _ (·.add (.u64 7)) rfl .nil, by decide⟩
  have amounts : t.commits.flatMap ds = [.u64 5, .u64 7] := by decide +kernel
  have summed := (no_modification_lost smallRuntime_new pair actions limits counts).2 ⟨16, 0⟩ .u64 rfl ds adds
  rw [amounts] at summed
  exact ⟨by decide +kernel, summed⟩

end TransactionalMemory
