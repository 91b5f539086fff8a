import TransactionalMemory.Proofs.Tallies
import TransactionalMemory.Proofs.Undisturbed

/-! # Programs as transactions

A program reads and writes fields, and what it does next may depend on the values that it has read
(`Program`).  It can be run directly on the words of memory (`Program.direct`), or as an attempt of a
context (`Program.transact`).  As long as nobody else holds a slot when the attempt starts, and nobody else
acts until it has committed, the two are the same: the answers, the words of memory, and a clock that has
moved by one if the program wrote (`undisturbed_attempt_is_direct`).
-/

namespace TransactionalMemory

variable {α ε : Type}

/-! ## Programs -/

/-- A program of reads and writes.  A read may look at the lock of its field first. -/
inductive Program where
  | done
  | read (probes : Bool) (l : Location) (kind : Kind) (next : Value → Program)
  | write (l : Location) (v : Value) (next : Program)

namespace Program

/-- The answers of a program that goes directly to memory, and the words that it leaves. -/
def direct : Program → Words → List Reply × Words
  | done, m => ([], m)
  | read _ l kind next, m =>
    let v := Value.decode (m l) kind
    let (replies, m') := (next v).direct m
    (.value v :: replies, m')
  | write l v next, m =>
    let (replies, m') := next.direct (m.put l v.encode)
    (.done :: replies, m')

/-- The fields exist that the program comes to. -/
def InRange (m : Memory) : Program → Words → Prop
  | done, _ => True
  | read _ l kind next, words => m.Has l ∧ (next (Value.decode (words l) kind)).InRange m words
  | write l v next, words => m.Has l ∧ next.InRange m (words.put l v.encode)

/-- The accesses of a program on a context, up to the first that is not answered as such an access is. -/
def run (owner : OwnerId) : Program → System → List (Response α ε) × System
  | done, s => ([], s)
  | read probes l kind next, s =>
    match s.step (.act owner (.call (if probes then .read l kind else .load l kind))) with
    | (.replied (.value v), s) =>
      let (responses, s) := (next v).run owner s
      (.replied (.value v) :: responses, s)
    | (other, s) => ([other], s)
  | write l v next, s =>
    match s.step (.act owner (.call (.write l v))) with
    | (.replied .done, s) =>
      let (responses, s) := next.run owner s
      (.replied .done :: responses, s)
    | (other, s) => ([other], s)

/-- A program as an attempt: the start, the accesses and the commit, without a step of others. -/
def transact (p : Program) (owner : OwnerId) (block : Nat) (mode : Mode) (s : System) :
    List (Response α ε) × System :=
  let (started, s) := s.step (.act owner (.call (.start block mode)) : Action α ε)
  let (responses, s) := p.run owner s
  let (ended, s) := s.step (.act owner (.call .commit))
  (started :: responses ++ [ended], s)

theorem transact_eq {p : Program} {owner : OwnerId} {block : Nat} {mode : Mode} {s s₁ s₂ s₃ : System}
    {started ended : Response α ε} {responses : List (Response α ε)}
    (start : s.step (.act owner (.call (.start block mode))) = (started, s₁))
    (accesses : p.run owner s₁ = (responses, s₂))
    (commit : s₂.step (.act owner (.call .commit)) = (ended, s₃)) :
    p.transact owner block mode s = (started :: responses ++ [ended], s₃) := by
  rw [transact, start]
  dsimp only
  rw [accesses]
  dsimp only
  rw [commit]

end Program

/-! ## Calls without disturbance -/

namespace System

variable {s : System} {owner : OwnerId} {w : Worker} {o : Scope.Outset} {words words' : Words}
  {wrote wrote' : Bool}

/-- Between two calls of its owner, the attempt is undisturbed. -/
def Undisturbed (s : System) (owner : OwnerId) (o : Scope.Outset) (words : Words) (wrote : Bool) : Prop :=
  ∃ w, s.worker? owner = some w ∧ w.isBusy = false ∧ (w.scope s.runtime).Undisturbed o words wrote

theorem step_call (here : s.worker? owner = some w) (idle : w.isBusy = false) (request : Request) :
    s.step (.act owner (.call request) : Action α ε) =
      let out := w.advance false ((w.scope s.runtime).perform request)
      (out.1, setWorker { s with runtime := out.2.1 } owner out.2.2) := by
  rw [step, act_eq here, Worker.step_call_of_idle idle]

/-- A call that is answered leaves the context between calls. -/
theorem step_of_answered (here : s.worker? owner = some w) (idle : w.isBusy = false) {request : Request}
    {reply : Reply} {scope : Scope} (performs : (w.scope s.runtime).perform request = (.answered reply, scope)) :
    ∃ s' w', s.step (.act owner (.call request) : Action α ε) = (.replied reply, s') ∧
      s'.worker? owner = some w' ∧ w'.isBusy = false ∧ w'.scope s'.runtime = scope := by
  rw [step_call here idle, performs]
  refine ⟨_, _, rfl, worker?_setWorker.trans (if_pos rfl), ?_, rfl⟩
  have unasked : w.asking?.isSome = false := (Bool.or_eq_false_iff.mp idle).2
  exact unasked

theorem Undisturbed.call (u : s.Undisturbed owner o words wrote) {request : Request} {reply : Reply}
    (performs : ∀ scope : Scope, scope.Undisturbed o words wrote → ∃ scope',
      scope.perform request = (.answered reply, scope') ∧ scope'.Undisturbed o words' wrote') : ∃ s',
      s.step (.act owner (.call request) : Action α ε) = (.replied reply, s') ∧
        s'.Undisturbed owner o words' wrote' := by
  obtain ⟨w, here, idle, undisturbed⟩ := u
  obtain ⟨scope, performed, still⟩ := performs _ undisturbed
  obtain ⟨s', w', answered, there, idle', same⟩ := step_of_answered here idle performed
  exact ⟨s', answered, w', there, idle', same.symm ▸ still⟩

theorem Undisturbed.read (u : s.Undisturbed owner o words wrote) {l : Location} (has : o.memory.Has l)
    (probes : Bool) (kind : Kind) : ∃ s',
      s.step (.act owner (.call (if probes then .read l kind else .load l kind)) : Action α ε) =
          (.replied (.value (Value.decode (words l) kind)), s') ∧
        s'.Undisturbed owner o words wrote := by
  cases probes with
  | true => exact u.call fun _ undisturbed => undisturbed.read has
  | false => exact u.call fun _ undisturbed => undisturbed.load has

theorem Undisturbed.write (u : s.Undisturbed owner o words wrote) {l : Location} (has : o.memory.Has l)
    (v : Value) : ∃ s', s.step (.act owner (.call (.write l v)) : Action α ε) = (.replied .done, s') ∧
      s'.Undisturbed owner o (words.put l v.encode) true :=
  u.call fun _ undisturbed => undisturbed.write has v

/-- An attempt that starts while nobody else holds a slot is undisturbed. -/
theorem Orderly.undisturbed_of_start (orderly : s.Orderly) (timely : s.Timely)
    (small : s.runtime.clock.now < lockBit - 1) (here : s.worker? owner = some w) (idle : w.isBusy = false)
    (alone : s.runtime.table.FreeFor owner) (block : Nat) (mode : Mode) : ∃ s',
      s.step (.act owner (.call (.start block mode)) : Action α ε) = (.replied .done, s') ∧
        s'.Undisturbed owner ⟨s.runtime.memory, s.runtime.clock, mode, w.context.tally⟩
          s.runtime.memory.words false := by
  have own : w.context.owner = owner := orderly.owners owner w here
  obtain ⟨scope, started, u⟩ := Scope.Undisturbed.of_start (orderly.holding owner w here) small
    (own.symm ▸ alone) timely.free (timely.remembered owner w here) block mode
  have performed : (w.scope s.runtime).perform (.start block mode) = (.answered .done, scope) := by
    rw [Scope.perform, started]
    rfl
  obtain ⟨s', w', answered, there, idle', same⟩ := step_of_answered here idle performed
  exact ⟨s', answered, w', there, idle', same.symm ▸ u⟩

/-- The accesses of a program are answered as those of the program that goes directly to memory. -/
theorem Undisturbed.run {owner : OwnerId} {o : Scope.Outset} : ∀ {p : Program} {s : System} {words : Words}
    {wrote : Bool}, s.Undisturbed owner o words wrote → p.InRange o.memory words → ∃ s',
      p.run (α := α) (ε := ε) owner s = ((p.direct words).1.map .replied, s') ∧
        s'.Undisturbed owner o (p.direct words).2 (wrote || (p.direct words).1.contains .done) := by
  intro p
  -- The state and its words stay general: they are others after each access, and a read decides what follows.
  induction p with
  | done =>
    intro s words wrote u _
    exact ⟨s, rfl, by simpa [Program.direct] using u⟩
  | read probes l kind next ih =>
    intro s words wrote u ⟨has, inRange⟩
    obtain ⟨s₁, answered, u₁⟩ := u.read (α := α) (ε := ε) has probes kind
    obtain ⟨s₂, ran, u₂⟩ := ih _ u₁ inRange
    refine ⟨s₂, ?_, by simpa [Program.direct] using u₂⟩
    simp only [Program.run, answered, ran, Program.direct, List.map_cons]
  | write l v next ih =>
    intro s words wrote u ⟨has, inRange⟩
    obtain ⟨s₁, answered, u₁⟩ := u.write (α := α) (ε := ε) has v
    obtain ⟨s₂, ran, u₂⟩ := ih u₁ inRange
    refine ⟨s₂, ?_, by simpa [Program.direct] using u₂⟩
    simp only [Program.run, answered, ran, Program.direct, List.map_cons]

theorem Undisturbed.commit (u : s.Undisturbed owner o words wrote) : ∃ s',
    s.step (.act owner (.call .commit) : Action α ε) =
        (match o.tally.countCommit o.mode (!wrote) with
          | .ok _ => .replied (.verdict true)
          | .error f => .faulted f, s') ∧
      s'.runtime.memory.words = words ∧ o.memory.SameShape s'.runtime.memory ∧
      s'.runtime.clock.now = o.clock.now + wrote.toNat := by
  obtain ⟨w, here, idle, undisturbed⟩ := u
  obtain ⟨scope, committed, effects⟩ := undisturbed.commit
  rw [step_call here idle, Scope.perform, committed]
  cases o.tally.countCommit o.mode (!wrote) <;> exact ⟨_, rfl, effects⟩

end System

/-- In any run of any contexts, whatever faults they meet, let a context be between calls, and let nobody else
    hold a slot.  A program that the context then runs as an attempt, without a step of others, is answered
    as the program that goes directly to memory, from the start to the commit, and it leaves the same words.
    The clock has moved by one if the program wrote, and not at all otherwise.

The commit answers that it has succeeded, unless it has happened and a counter of the context is full,
which takes as many steps as a counter can count. -/
theorem undisturbed_attempt_is_direct {settings : Settings} {r : Runtime}
    (new : Runtime.new? settings = .ok r) (m : Memory) (before : List (Action α ε))
    (owners : before.countP Action.isAnnounce < lockBit)
    (clock : ∀ n ≤ before.length,
      ((Chronicle.start r m).run (before.take n)).system.runtime.clock.now < lockBit - 1)
    (owner : OwnerId) (w : Worker)
    (here : ((Chronicle.start r m).run before).system.worker? owner = some w) (idle : w.isBusy = false)
    (alone : ((Chronicle.start r m).run before).system.runtime.table.FreeFor owner) (block : Nat) (mode : Mode)
    (p : Program) :
    let s := ((Chronicle.start r m).run before).system
    let direct := p.direct s.runtime.memory.words
    let wrote := direct.1.contains .done
    let out := p.transact (α := α) (ε := ε) owner block mode s
    p.InRange s.runtime.memory s.runtime.memory.words →
    out.1 = .replied .done :: direct.1.map .replied ++
        [match w.context.tally.countCommit mode (!wrote) with
          | .ok _ => .replied (.verdict true)
          | .error f => .faulted f] ∧
      (before.length + 1 < wordRange → ∃ tally, w.context.tally.countCommit mode (!wrote) = .ok tally) ∧
      out.2.runtime.memory.words = direct.2 ∧ s.runtime.memory.SameShape out.2.runtime.memory ∧
      out.2.runtime.clock.now = s.runtime.clock.now + wrote.toNat := by
  intro s direct wrote out inRange
  have orderly : s.Orderly := (Chronicle.orderly_run new m owners).1
  have timely : s.Timely := Chronicle.timely_run new m owners clock
  have small : s.runtime.clock.now < lockBit - 1 := by
    have now := clock before.length (Nat.le_refl _)
    rwa [List.take_length] at now
  obtain ⟨s₁, started, u₁⟩ := orderly.undisturbed_of_start (α := α) (ε := ε) timely small here idle alone
    block mode
  obtain ⟨s₂, ran, u₂⟩ := u₁.run (α := α) (ε := ε) inRange
  obtain ⟨s₃, committed, words, shape, now⟩ := u₂.commit (α := α) (ε := ε)
  rw [Bool.false_or] at committed now
  rw [show out = _ from Program.transact_eq started ran committed]
  have counted := Chronicle.atMost_run new m owners here
  exact ⟨rfl, fun short => counted.countCommit short mode _, words, shape, now⟩

/-- A second context has committed and a third one reads, while the first one holds a slot of its own from an
    attempt that it has left.  The first one then copies a field and reads the copy back. -/
theorem undisturbed_attempt_is_direct_of_three :
    let before : List (Action Unit Unit) :=
      [.announce, .announce, .announce, .register ⟨1⟩, .register ⟨2⟩, .register ⟨3⟩,
       .act ⟨2⟩ (.call (.start 0 .regular)), .act ⟨2⟩ (.call (.write ⟨16, 1⟩ (.u64 5))),
       .act ⟨2⟩ (.call .commit), .act ⟨1⟩ (.call (.start 0 .regular)),
       .act ⟨1⟩ (.call (.write ⟨16, 0⟩ (.u64 9))), .act ⟨3⟩ (.call (.start 0 .elastic)),
       .act ⟨3⟩ (.call (.read ⟨16, 1⟩ .u64))]
    let s := ((Chronicle.start smallRuntime pair).run before).system
    let copy : Program := .read true ⟨16, 1⟩ .u64 fun v =>
      .write ⟨16, 0⟩ v (.read false ⟨16, 0⟩ .i64 fun _ => .done)
    let out := copy.transact (α := Unit) (ε := Unit) ⟨1⟩ 1 .elastic s
    out.1 = [.replied .done, .replied (.value (.u64 5)), .replied .done, .replied (.value (.i64 5)),
        .replied (.verdict true)] ∧
      out.2.runtime.memory.words ⟨16, 0⟩ = 5 ∧ out.2.runtime.clock.now = 2 := by
  intro before s copy out
  have there : (s.worker? ⟨1⟩).isSome = true := by decide +kernel
  obtain ⟨w, here⟩ := Option.isSome_iff_exists.mp there
  have idle : w.isBusy = false := by
    have idles : ∀ w ∈ s.worker? ⟨1⟩, w.isBusy = false := by decide +kernel
    exact idles w here
  have inRange : copy.InRange s.runtime.memory s.runtime.memory.words :=
    ⟨by decide +kernel, by decide +kernel, by decide +kernel, trivial⟩
  obtain ⟨plain, copied, now⟩ : (copy.direct s.runtime.memory.words).1 =
        [.value (.u64 5), .done, .value (.i64 5)] ∧
      (copy.direct s.runtime.memory.words).2 ⟨16, 0⟩ = 5 ∧ s.runtime.clock.now = 1 := by decide +kernel
  obtain ⟨told, counts, words, -, later⟩ := undisturbed_attempt_is_direct smallRuntime_new pair before
    (by decide) (by decide +kernel) ⟨1⟩ w here idle (by decide +kernel) 1 .elastic copy inRange
  obtain ⟨tally, counted⟩ := counts (by decide)
  refine ⟨told.trans ?_, (congrFun words ⟨16, 0⟩).trans copied, later.trans ?_⟩
  · rw [counted, plain]
    rfl
  · rw [plain, now]
    rfl

end TransactionalMemory
