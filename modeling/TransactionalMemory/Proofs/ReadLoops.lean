import TransactionalMemory.Proofs.Causes
import TransactionalMemory.Proofs.Configuration
import TransactionalMemory.Proofs.Readers

/-! # How often a read looks at its slot

A read of a slot that its context does not hold makes passes: it looks at the slot, loads the value, looks again, and if
the bound of the snapshot has to move, it looks once more after that.  A look that finds the slot changed starts the
loop over.  Others can act between any two steps of the loop.

The passes are counted from the steps that the read makes.  Each time it starts over, another context has taken the slot
since its pass began (`reads_start_over_only_if_interrupted`), so a read makes one pass if nobody interferes, and a
pass has six steps at most.  It ends with a value or an abort, since the bound that it moves to is never below the stamp
that it has seen: the clock has reached every stamp.
-/

namespace TransactionalMemory

variable {α ε : Type}

/-! ## Slots that others take -/

/-- A step of another context. -/
def Action.actsBeside (owner : OwnerId) : Action α ε → Bool
  | act o _ => o ≠ owner
  | _ => false

namespace ReaderMove

/-- How often other contexts act. -/
def acts (owner : OwnerId) (moves : List (ReaderMove α ε)) : Nat := (others moves).countP (·.actsBeside owner)

/-- How many steps the read makes. -/
def ownSteps (moves : List (ReaderMove α ε)) : Nat := moves.countP (·.isOwn)

variable {owner : OwnerId} {moves moves' : List (ReaderMove α ε)}

theorem acts_append : acts owner (moves ++ moves') = acts owner moves + acts owner moves' := by
  rw [acts, others_append, List.countP_append]
  rfl

theorem acts_own : acts owner (moves ++ [.own]) = acts owner moves := acts_append

theorem ownSteps_own : ownSteps (moves ++ [.own]) = ownSteps moves + 1 := List.countP_append

theorem ownSteps_other (a : Action α ε) : ownSteps (moves ++ [.other a]) = ownSteps moves := List.countP_append

end ReaderMove

namespace System.Orderly

variable {s : System}

/-- A free slot changes only in a step that takes it. -/
theorem taken_of_changed (h : s.Orderly) {a : Action α ε} {slot stamp : Nat}
    (free : s.runtime.table.word slot = .free stamp)
    (changed : (s.step a).2.runtime.table.word slot ≠ .free stamp) :
    ∃ o action, a = .act o action ∧ (s.step a).2.runtime.table.word slot = .held o := by
  have unheld : ∀ {o : OwnerId} {w : Worker}, s.worker? o = some w → w.context.writes.stamp? slot = none :=
    fun {o w} here => (h.holding o w here).stamp?_of_not_held fun held => LockWord.noConfusion (free.symm.trans held)
  rcases h.step_cases a with ⟨o, action, w, rfl, here, runtime⟩ | ⟨o, w, scope, -, here, withdrawn, runtime⟩ |
    ⟨-, table, -⟩
  · refine ⟨o, action, rfl, ?_⟩
    have handles := (Worker.step_works (h.holding o w here) action).handles
    rw [runtime] at changed ⊢
    cases handles with
    | keep table => exact absurd ((congrArg (·.word slot) table).trans free) changed
    | log l v active table => exact absurd ((congrArg (·.word slot) table).trans free) changed
    | take l v stamp' active _ table =>
      have word := (congrArg (·.word slot) table).trans (LockTable.word_set ..)
      split at word
      · exact word.trans (congrArg LockWord.held (h.owners o w here))
      · exact absurd (word.trans free) changed
    | giveBack stampOf given => exact absurd ((given.word_of_unheld (unheld here)).trans free) changed
  · rw [runtime] at changed
    exact absurd ((withdrawn.given.word_of_unheld (unheld here)).trans free) changed
  · rw [table] at changed
    exact absurd free changed

/-- Objects keep their sizes. -/
theorem shape_step (h : s.Orderly) (a : Action α ε) : s.runtime.memory.SameShape (s.step a).2.runtime.memory := by
  rcases h.step_cases a with ⟨o, action, w, rfl, here, runtime⟩ | ⟨o, w, scope, -, here, withdrawn, runtime⟩ |
    ⟨memory, -⟩
  · rw [runtime]
    rcases (Worker.deed_step (h.holding o w here) action).memory_cases with same | committed | ⟨f, stopped, -⟩
    · rw [same]
      exact fun _ => rfl
    · exact committed.shape
    · exact stopped.shape
  · rw [runtime, withdrawn.memory]
    exact fun _ => rfl
  · rw [memory]
    exact fun _ => rfl

end System.Orderly

/-! ## Passes -/

namespace Reader

/-- The read is about to begin a pass. -/
def looks (x : Reader) : Bool :=
  match x.course with
  | .reading _ _ _ .look => true
  | _ => false

/-- The next step of the read gives up its pass. -/
def startsOver (x : Reader) : Bool := !x.looks && x.goOn.looks

/-- How many passes the read begins. -/
def passes (x : Reader) : List (ReaderMove α ε) → Nat
  | [] => 0
  | move :: rest => (if move.isOwn && x.looks then 1 else 0) + (x.step move).passes rest

/-- What a slot holds. -/
def word (x : Reader) (slot : Nat) : LockWord := x.system.runtime.table.word slot

/-- In one of the moves another context takes the slot, which was free with the stamp until then. -/
def Seized (x : Reader) (owner : OwnerId) (slot stamp : Nat) (moves : List (ReaderMove α ε)) : Prop :=
  ∃ before o action after, moves = before ++ .other (.act o action) :: after ∧ o ≠ owner ∧
    (x.run before).word slot = .free stamp ∧ (x.run (before ++ [.other (.act o action)])).word slot = .held o

/-- Since the last pass began, which has seen the slot free, another context has taken it. -/
def Interrupted (x : Reader) (owner : OwnerId) (slot : Nat) (moves : List (ReaderMove α ε)) : Prop :=
  ∃ looked since stamp, moves = looked ++ .own :: since ∧ (x.run looked).looks = true ∧
    (x.run looked).goOn.passes since = 0 ∧ (x.run looked).word slot = .free stamp ∧
    (x.run looked).goOn.Seized owner slot stamp since

variable {x : Reader} {owner : OwnerId} {slot stamp : Nat} {moves : List (ReaderMove α ε)}

theorem not_looks_of_stopped {p : Progress} (ended : x.course = .stopped p) : x.looks = false := by rw [looks, ended]

theorem not_startsOver (settled : x.goOn.looks = false) : x.startsOver = false := by
  rw [startsOver, settled, Bool.and_false]

theorem passes_snoc (x : Reader) (moves : List (ReaderMove α ε)) (move : ReaderMove α ε) :
    x.passes (moves ++ [move]) = x.passes moves + if move.isOwn && (x.run moves).looks then 1 else 0 := by
  induction moves generalizing x with
  | nil => exact Nat.add_comm _ _
  | cons m rest ih =>
    rw [List.cons_append, passes, passes, ih, Nat.add_assoc]
    rfl

theorem passes_of_not_looks (going : (x.run moves).looks = false) (move : ReaderMove α ε) :
    x.passes (moves ++ [move]) = x.passes moves := by
  rw [passes_snoc, going, Bool.and_false]
  rfl

/-- A read that is about to begin a pass begins one with its first step. -/
theorem passes_pos (looks : x.looks = true) (goesOn : 0 < ReaderMove.ownSteps moves) : 0 < x.passes moves := by
  induction moves generalizing x with
  | nil => exact absurd goesOn (Nat.lt_irrefl 0)
  | cons move rest ih =>
    cases move with
    | own =>
      rw [passes, looks]
      exact Nat.lt_of_lt_of_le Nat.one_pos (Nat.le_add_right _ _)
    | other a =>
      refine Nat.lt_of_lt_of_le (ih (x := x.step (.other a)) looks ?_) (Nat.le_add_left _ _)
      rwa [ReaderMove.ownSteps, List.countP_cons_of_neg Bool.false_ne_true] at goesOn

theorem Seized.snoc (h : x.Seized owner slot stamp moves) (move : ReaderMove α ε) :
    x.Seized owner slot stamp (moves ++ [move]) := by
  obtain ⟨before, o, action, after, rfl, rest⟩ := h
  exact ⟨before, o, action, after ++ [move], by rw [List.append_assoc, List.cons_append], rest⟩

theorem Seized.acts_pos (h : x.Seized owner slot stamp moves) :
    0 < ReaderMove.acts owner moves := by
  obtain ⟨before, o, action, after, rfl, other, -⟩ := h
  rw [ReaderMove.acts, List.countP_pos_iff]
  exact ⟨.act o action, List.mem_filterMap.mpr ⟨.other (.act o action), by simp, rfl⟩, decide_eq_true other⟩

end Reader

/-! ## One step of a read -/

/-- How a read ends: with a value, or with an abort.  It meets a fault only if the field does not exist or a counter of
    aborts is full. -/
def ReadAnswer (m : Memory) (tally : Tally) (l : Location) : Progress → Prop
  | .answered (.value _) | .answered (.aborted _) => True
  | .faulted _ => ¬ m.Has l ∨ ∃ c f, tally.countAbort c = .error f
  | _ => False

theorem ReadAnswer.of_has_iff {m m' : Memory} {tally : Tally} {l : Location} {p : Progress}
    (answer : ReadAnswer m tally l p) (same : m.Has l ↔ m'.Has l) : ReadAnswer m' tally l p := by
  cases p with
  | faulted f => exact Or.imp_left (mt same.mpr) answer
  | answered a => cases a <;> exact answer
  | _ => exact answer

/-- What a pass relies on: the slot is one of the table and not the context's own, its stamp is not beyond the clock,
    and the slots of the logged reads are in the table. -/
structure Scope.Poised (s : Scope) (slot : Nat) : Prop where
  inside : slot < s.runtime.table.size
  foreign : s.runtime.table.word slot ≠ .held s.context.owner
  past : ∀ stamp, s.runtime.table.word slot = .free stamp → stamp ≤ s.runtime.clock.now
  logs : ∀ e, s.context.Remembers e → e.slot < s.runtime.table.size

/-- Where a pass stands that has seen the stamp, and the number of its steps so far.  The bound that it has moved to, or
    is about to, is not below the stamp. -/
inductive InPass (l : Location) (k : Kind) (slot stamp upper : Nat) : Course → Nat → Prop
  | load : InPass l k slot stamp upper (.reading l k slot (.load stamp)) 1
  | confirm (v : Value) : InPass l k slot stamp upper (.reading l k slot (.confirm stamp v)) 2
  | move (v : Value) : InPass l k slot stamp upper (.reading l k slot (.move stamp v)) 3
  | extend (e : Event) (candidate : Nat) (v : Value) (reached : stamp ≤ candidate) :
      InPass l k slot stamp upper (.stopped (.standing e (.extend candidate (.recheck l k slot stamp v)))) 4
  | settle (v : Value) (reached : stamp ≤ upper) : InPass l k slot stamp upper (.reading l k slot (.settle stamp v)) 5

theorem InPass.le_five {l : Location} {k : Kind} {slot stamp upper n : Nat} {course : Course}
    (h : InPass l k slot stamp upper course n) : n ≤ 5 := by
  cases h <;> decide

namespace Reader

/-- What a step in the middle of a pass comes to. -/
inductive Comes (x : Reader) (l : Location) (k : Kind) (slot stamp n : Nat) (x' : Reader) : Prop
  | ends (p : Progress) (course : x'.course = .stopped p)
      (answer : ReadAnswer x.system.runtime.memory x.context.tally l p)
  | aborts (e : Event) (c : Conflict) (same : x' = { x with course := .stopped (.standing e (.abort c .access)) })
  | goesOn (course : Course) (n' upper : Nat) (same : x' = { x with context := { x.context with upper }, course })
      (inPass : InPass l k slot stamp upper course n') (later : n < n')
  | startsOver (same : x' = { x with course := .reading l k slot .look }) (changed : x.word slot ≠ .free stamp)

variable {x : Reader} {l : Location} {k : Kind} {slot stamp n : Nat} {v : Value}

theorem not_looks_of_inPass {upper : Nat} (inPass : InPass l k slot stamp upper x.course n) : x.looks = false := by
  unfold looks
  generalize x.course = course at inPass
  cases inPass <;> rfl

/-- A pass begins with a slot that is free, or comes before an abort. -/
theorem goOn_of_looking (poised : x.scope.Poised slot) (looking : x.course = .reading l k slot .look) :
    (∃ e c, x.goOn = { x with course := .stopped (.standing e (.abort c .access)) }) ∨
      ∃ stamp, x.word slot = .free stamp ∧ x.goOn = { x with course := .reading l k slot (.load stamp) } := by
  rw [goOn_of_reading looking, Scope.readStep, Scope.lookAt, LockTable.check_of_lt poised.inside]
  cases word : x.scope.runtime.table.word slot with
  | free stamp => exact Or.inr ⟨stamp, word, rfl⟩
  | held holder =>
    have other : holder ≠ x.scope.context.owner := by
      rintro rfl
      exact poised.foreign word
    dsimp only
    rw [if_neg other]
    exact Or.inl ⟨_, _, rfl⟩

theorem Comes.of_answer {p : Progress} {s : Scope} (answer : ReadAnswer x.system.runtime.memory x.context.tally l p) :
    Comes x l k slot stamp n (x.comesTo (.stopped p, s)) := .ends p rfl answer

theorem Comes.finishRead {s : Scope} (reached : stamp ≤ s.context.upper) :
    Comes x l k slot stamp n (x.comesTo (Scope.stop (s.finishRead l slot stamp v))) := by
  rw [Scope.finishRead, if_pos reached]
  exact .of_answer trivial

/-- A look that finds the slot as it was lets the pass go on. -/
theorem Comes.lookAgain (inside : slot < x.scope.runtime.table.size) {unchanged : Course × Scope}
    (goesOn : Comes x l k slot stamp n (x.comesTo unchanged)) :
    Comes x l k slot stamp n (x.comesTo (x.scope.lookAgain l k slot stamp unchanged)) := by
  rw [Scope.lookAgain, LockTable.load_of_lt inside]
  dsimp only
  split
  · exact goesOn
  · next changed => exact .startsOver rfl changed

theorem Comes.moveBound (poised : x.scope.Poised slot) (past : stamp ≤ x.system.runtime.clock.now) :
    Comes x l k slot stamp 3 (x.comesTo (x.scope.moveBound l k slot stamp v)) := by
  unfold Scope.moveBound
  dsimp only
  split
  · obtain ⟨valid, checked⟩ := allCurrent_ok x.scope.context.owner x.scope.context.writes fun e member =>
      poised.logs e (Or.inr member)
    rw [show x.scope.context.window.validate _ _ _ = .ok valid from checked]
    cases valid with
    | false => exact .aborts _ _ rfl
    | true => exact .goesOn _ 5 x.system.runtime.clock.now rfl (.settle v past) (by decide)
  · obtain ⟨valid, checked⟩ := allCurrent_ok x.scope.context.owner x.scope.context.writes fun e member =>
      poised.logs e (Or.inl member)
    unfold Scope.tryExtend
    dsimp only
    rw [show x.scope.context.reads.validate _ _ _ = .ok valid from checked]
    cases valid with
    | false => exact .aborts _ _ rfl
    | true => exact .goesOn _ 4 x.context.upper rfl (.extend _ _ v past) (by decide)

/-- A step in the middle of a pass. -/
theorem comes_of_inPass (poised : x.scope.Poised slot) (past : stamp ≤ x.system.runtime.clock.now)
    (inPass : InPass l k slot stamp x.context.upper x.course n) : Comes x l k slot stamp n x.goOn := by
  generalize at' : x.course = course at inPass
  cases inPass with
  | load =>
    rw [goOn_of_reading at', Scope.readStep]
    cases loaded : x.scope.runtime.memory.peek l k with
    | error f =>
      refine .of_answer (Or.inl fun exists_ => ?_)
      cases loaded.symm.trans (Memory.peek_eq_ok_iff.mpr ⟨exists_, rfl⟩)
    | ok v => exact .goesOn _ 2 x.context.upper rfl (.confirm v) (by decide)
  | confirm v =>
    rw [goOn_of_reading at', Scope.readStep]
    refine .lookAgain poised.inside ?_
    split
    · next reached => exact .finishRead reached
    · exact .goesOn _ 3 x.context.upper rfl (.move v) (by decide)
  | move v =>
    rw [goOn_of_reading at', Scope.readStep]
    exact .moveBound poised past
  | extend e candidate v reached =>
    rw [goOn_of_standing at']
    exact .goesOn _ 5 candidate rfl (.settle v reached) (by decide)
  | settle v reached =>
    rw [goOn_of_reading at', Scope.readStep]
    exact .lookAgain poised.inside (.finishRead reached)

/-- A read that stands before an abort ends. -/
theorem answer_of_aborting {e : Event} {c : Conflict} (holding : x.scope.Holding)
    (aborting : x.course = .stopped (.standing e (.abort c .access))) :
    ∃ p, x.goOn.course = .stopped p ∧ ReadAnswer x.system.runtime.memory x.context.tally l p := by
  rw [goOn_of_standing aborting]
  refine ⟨_, rfl, ?_⟩
  show ReadAnswer _ _ _ (x.scope.finishAbort c .access).1
  rw [Scope.finishAbort]
  cases counted : x.scope.context.tally.countAbort c with
  | error f => exact Or.inr ⟨c, f, counted⟩
  | ok tally =>
    obtain ⟨s, rolled, -⟩ := holding.rollback_counted tally (some c)
    dsimp only
    rw [rolled]
    trivial

end Reader

namespace Chronicle

variable {t : Chronicle} {actions : List (Action α ε)} {owner : OwnerId} {w : Worker} {l : Location}

theorem OrderlyAlong.has_iff (orderly : t.OrderlyAlong actions) (l : Location) :
    (t.run actions).system.runtime.memory.Has l ↔ t.system.runtime.memory.Has l := by
  induction actions using List.reverseRecOn with
  | nil => exact Iff.rfl
  | append_singleton actions a ih =>
    rw [run_snoc, system_step]
    exact ((orderly.init.last.shape_step a).has l).trans (ih orderly.init)

theorem Mindful.poised (mindful : t.Mindful) (orderly : t.system.Orderly) (here : t.system.worker? owner = some w)
    (active : w.context.phase = .active) (unheld : w.context.writes.stamp? (t.system.runtime.table.slotOf l) = none) :
    (w.scope t.system.runtime).Poised (t.system.runtime.table.slotOf l) where
  inside := LockTable.slotOf_lt_size _ l
  foreign word := by
    have owns := (orderly.holding owner w here).listed _ word
    rw [RedoLog.owns, show (w.scope t.system.runtime).context.writes.stamp? _ = none from unheld] at owns
    cases owns
  past := mindful.timely.free _
  logs := (mindful.attentive owner w here).inside active

/-- Along a run within the limits of the machine every context knows what its reads were. -/
theorem mindful_of_append {settings : Settings} {r : Runtime} (new : Runtime.new? settings = .ok r) (m : Memory)
    {before after : List (Action α ε)} (owners : (before ++ after).countP Action.isAnnounce < lockBit)
    (clock : ∀ n ≤ (before ++ after).length,
      ((start r m).run ((before ++ after).take n)).system.runtime.clock.now < lockBit - 1)
    {pre post : List (Action α ε)} (split : after = pre ++ post) : (((start r m).run before).run pre).Mindful := by
  rw [split, ← List.append_assoc] at owners clock
  rw [← run_append]
  refine mindful_run new m ?_ (forall_take_of_append
    (P := fun actions => ((start r m).run actions).system.runtime.clock.now < lockBit - 1) clock)
  rw [List.countP_append] at owners
  omega

end Chronicle

/-! ## What a pass has seen -/

namespace Reader

/-- The last pass saw the slot free with the stamp, and by now the slot is as it was or another context has taken it.
    Before the pass the others had acted as often, at least, as the read had started over. -/
def Saw (x : Reader) (owner : OwnerId) (slot stamp : Nat) (moves : List (ReaderMove α ε)) : Prop :=
  ∃ looked since, moves = looked ++ .own :: since ∧ (x.run looked).looks = true ∧
    (x.run looked).goOn.passes since = 0 ∧ (x.run looked).word slot = .free stamp ∧
    x.passes moves ≤ ReaderMove.acts owner looked + 1 ∧
    ((x.run moves).word slot = .free stamp ∨ (x.run looked).goOn.Seized owner slot stamp since)

variable {x : Reader} {owner : OwnerId} {slot stamp : Nat} {moves : List (ReaderMove α ε)}

theorem Saw.begins (looks : (x.run moves).looks = true) (word : (x.run moves).word slot = .free stamp)
    (still : (x.run (moves ++ [.own])).word slot = .free stamp)
    (few : x.passes moves ≤ ReaderMove.acts owner moves) :
    x.Saw owner slot stamp (moves ++ [.own]) := by
  refine ⟨moves, [], rfl, looks, rfl, word, ?_, Or.inl still⟩
  rw [passes_snoc, looks]
  exact Nat.succ_le_succ few

/-- The pass goes on, or another context acts inside of it. -/
theorem Saw.goesOn (saw : x.Saw owner slot stamp moves) {move : ReaderMove α ε}
    (inside : (move.isOwn && (x.run moves).looks) = false)
    (next : (x.run moves).word slot = .free stamp → (x.run (moves ++ [move])).word slot = .free stamp ∨
      ∃ o action, move = .other (.act o action) ∧ o ≠ owner ∧ (x.run (moves ++ [move])).word slot = .held o) :
    x.Saw owner slot stamp (moves ++ [move]) := by
  obtain ⟨looked, since, rfl, looks, one, word, few, now⟩ := saw
  have here : x.run (looked ++ .own :: since) = (x.run looked).goOn.run since := x.run_append looked (.own :: since)
  refine ⟨looked, since ++ [move], by rw [List.append_assoc, List.cons_append], looks, ?_, word, ?_, ?_⟩
  · rw [passes_snoc, one, ← here, inside]
    rfl
  · rw [passes_snoc, inside]
    exact few
  · rcases now with free | seized
    · refine (next free).imp_right ?_
      rintro ⟨o, action, rfl, other, held⟩
      refine ⟨since, o, action, [], rfl, other, here ▸ free, ?_⟩
      rwa [run_append, here, ← run_append] at held
    · exact Or.inr (seized.snoc move)

/-- A pass that finds its slot changed was interrupted. -/
theorem Saw.interrupted (saw : x.Saw owner slot stamp moves) (changed : (x.run moves).word slot ≠ .free stamp) :
    x.Interrupted owner slot moves ∧ x.passes moves ≤ ReaderMove.acts owner moves := by
  obtain ⟨looked, since, rfl, looks, one, word, few, now⟩ := saw
  have seized := now.resolve_left changed
  refine ⟨⟨looked, since, stamp, rfl, looks, one, word, seized⟩, few.trans ?_⟩
  have taken := seized.acts_pos
  rw [ReaderMove.acts_append]
  exact Nat.add_le_add_left taken _

theorem Saw.passes_le (saw : x.Saw owner slot stamp moves) :
    x.passes moves ≤ ReaderMove.acts owner moves + 1 := by
  obtain ⟨looked, since, rfl, -, -, -, few, -⟩ := saw
  rw [ReaderMove.acts_append]
  omega

/-! ## The course of a read -/

/-- Where a read stands that has not ended, with a bound on the passes that it has begun and on its steps. -/
inductive Stands (x : Reader) (owner : OwnerId) (l : Location) (k : Kind) (slot : Nat)
    (moves : List (ReaderMove α ε)) : Prop
  | looking (course : (x.run moves).course = .reading l k slot .look)
      (few : x.passes moves ≤ ReaderMove.acts owner moves)
      (brief : ReaderMove.ownSteps moves ≤ 6 * x.passes moves)
  | inPass (stamp n : Nat)
      (inPass : InPass l k slot stamp (x.run moves).context.upper (x.run moves).course n)
      (past : stamp ≤ (x.run moves).system.runtime.clock.now) (saw : x.Saw owner slot stamp moves)
      (brief : ReaderMove.ownSteps moves + 6 ≤ 6 * x.passes moves + n)
  | aborting (e : Event) (c : Conflict) (course : (x.run moves).course = .stopped (.standing e (.abort c .access)))
      (few : x.passes moves ≤ ReaderMove.acts owner moves + 1)
      (brief : ReaderMove.ownSteps moves ≤ 6 * x.passes moves)

theorem Stands.brief {l : Location} {k : Kind} (h : x.Stands owner l k slot moves) :
    ReaderMove.ownSteps moves ≤ 6 * (ReaderMove.acts owner moves + 1) := by
  cases h with
  | looking _ few brief => omega
  | aborting _ _ _ few brief => omega
  | inPass stamp n inPass _ saw brief =>
    have few := saw.passes_le
    have short := inPass.le_five
    omega

/-- Nobody has learned of the read, and it has changed nothing but the bound of its context. -/
structure Aside (x : Reader) (s : System) (c : Context) : Prop where
  system : x.system = s
  context : ∃ upper, x.context = { c with upper }

/-- What is known of a read that began at some moment of a run, as far as it has come. -/
structure Follows (x : Reader) (t : Chronicle) (owner : OwnerId) (l : Location) (k : Kind) (slot : Nat)
    (moves : List (ReaderMove α ε)) : Prop where
  interrupted : ∀ pre post, moves = pre ++ .own :: post → (x.run pre).startsOver = true →
    x.Interrupted owner slot pre
  few : x.passes moves ≤ ReaderMove.acts owner moves + 1
  stands : (∃ p, (x.run moves).course = .stopped p ∧ ReadAnswer t.system.runtime.memory x.context.tally l p) ∨
    (x.run moves).Aside (t.run (ReaderMove.others moves)).system x.context ∧ x.Stands owner l k slot moves

namespace Follows

variable {t : Chronicle} {l : Location} {k : Kind} {move : ReaderMove α ε}

theorem start (t : Chronicle) (owner : OwnerId) (c : Context) (l : Location) (k : Kind) :
    (Reader.start t.system c l k).Follows t owner l k (t.system.runtime.table.slotOf l)
      ([] : List (ReaderMove α ε)) where
  interrupted pre post split := absurd split.symm (by simp)
  few := Nat.zero_le _
  stands := Or.inr ⟨⟨rfl, _, rfl⟩, .looking rfl (Nat.le_refl _) (Nat.le_refl _)⟩

theorem snoc (h : x.Follows t owner l k slot moves)
    (last : .own = move → (x.run moves).startsOver = true → x.Interrupted owner slot moves)
    (few : x.passes (moves ++ [move]) ≤ ReaderMove.acts owner (moves ++ [move]) + 1)
    (stands : (∃ p, (x.run (moves ++ [move])).course = .stopped p ∧
        ReadAnswer t.system.runtime.memory x.context.tally l p) ∨
      (x.run (moves ++ [move])).Aside (t.run (ReaderMove.others (moves ++ [move]))).system x.context ∧
        x.Stands owner l k slot (moves ++ [move])) : x.Follows t owner l k slot (moves ++ [move]) where
  interrupted pre post split startsOver := by
    rcases snoc_eq_append_cons split with ⟨rfl, same⟩ | ⟨post', split⟩
    · exact last same startsOver
    · exact h.interrupted pre post' split startsOver
  few := few
  stands := stands

/-- The read does not start over in the move. -/
theorem snoc_of_settled (h : x.Follows t owner l k slot moves)
    (settled : .own = move → (x.run moves).startsOver = false)
    (few : x.passes (moves ++ [move]) ≤ ReaderMove.acts owner (moves ++ [move]) + 1)
    (stands : (∃ p, (x.run (moves ++ [move])).course = .stopped p ∧
        ReadAnswer t.system.runtime.memory x.context.tally l p) ∨
      (x.run (moves ++ [move])).Aside (t.run (ReaderMove.others (moves ++ [move]))).system x.context ∧
        x.Stands owner l k slot (moves ++ [move])) : x.Follows t owner l k slot (moves ++ [move]) := by
  refine h.snoc (fun own startsOver => ?_) few stands
  cases (settled own).symm.trans startsOver

/-- Nothing becomes of a read that has ended. -/
theorem of_ended (h : x.Follows t owner l k slot moves) {p : Progress} (ended : (x.run moves).course = .stopped p)
    (answer : ReadAnswer t.system.runtime.memory x.context.tally l p) (move : ReaderMove α ε) :
    x.Follows t owner l k slot (moves ++ [move]) := by
  have still : (x.run moves).goOn = x.run moves := by
    rw [goOn, ended]
    cases p with
    | standing e rest => cases answer
    | _ => rfl
  have settled := not_looks_of_stopped ended
  refine h.snoc_of_settled (fun _ => not_startsOver (by rw [still]; exact settled)) ?_ (Or.inl ⟨p, ?_, answer⟩)
  · rw [passes_of_not_looks settled, ReaderMove.acts_append]
    exact h.few.trans (by omega)
  · rw [run_snoc]
    cases move with
    | own => exact (congrArg Reader.course still).trans ended
    | other a => exact ended

/-! ### Steps of the read -/

theorem own_of_looking (h : x.Follows t owner l k slot moves)
    (aside : (x.run moves).Aside (t.run (ReaderMove.others moves)).system x.context)
    (poised : (x.run moves).scope.Poised slot) (looking : (x.run moves).course = .reading l k slot .look)
    (few : x.passes moves ≤ ReaderMove.acts owner moves) (brief : ReaderMove.ownSteps moves ≤ 6 * x.passes moves) :
    x.Follows t owner l k slot (moves ++ [.own]) := by
  have looks : (x.run moves).looks = true := by rw [Reader.looks, looking]
  have passes : x.passes (moves ++ [.own]) = x.passes moves + 1 := by
    rw [passes_snoc, looks]
    rfl
  have run : x.run (moves ++ [.own]) = (x.run moves).goOn := run_snoc ..
  have others : ReaderMove.others (moves ++ [.own]) = ReaderMove.others moves := by simp
  have few' : x.passes (moves ++ [.own]) ≤ ReaderMove.acts owner (moves ++ [.own]) + 1 := by
    rw [passes, ReaderMove.acts_own]
    exact Nat.succ_le_succ few
  refine h.snoc_of_settled (fun _ => by rw [startsOver, looks]; rfl) few' (Or.inr ?_)
  rcases goOn_of_looking poised looking with ⟨e, c, next⟩ | ⟨stamp, word, next⟩
  · rw [run, next, others]
    exact ⟨⟨aside.system, aside.context⟩,
      .aborting e c (by rw [run, next]) few' (by rw [passes, ReaderMove.ownSteps_own]; omega)⟩
  · rw [run, next, others]
    refine ⟨⟨aside.system, aside.context⟩, .inPass stamp 1 ?_ ?_ (.begins looks word ?_ few) ?_⟩
    · rw [run, next]
      exact .load
    · rw [run, next]
      exact poised.past stamp word
    · rw [run, next]
      exact word
    · rw [passes, ReaderMove.ownSteps_own]
      omega

theorem own_of_inPass (h : x.Follows t owner l k slot moves)
    (aside : (x.run moves).Aside (t.run (ReaderMove.others moves)).system x.context)
    (poised : (x.run moves).scope.Poised slot) {stamp n : Nat}
    (inPass : InPass l k slot stamp (x.run moves).context.upper (x.run moves).course n)
    (past : stamp ≤ (x.run moves).system.runtime.clock.now) (saw : x.Saw owner slot stamp moves)
    (brief : ReaderMove.ownSteps moves + 6 ≤ 6 * x.passes moves + n)
    (has : (x.run moves).system.runtime.memory.Has l ↔ t.system.runtime.memory.Has l) :
    x.Follows t owner l k slot (moves ++ [.own]) := by
  have looks := not_looks_of_inPass inPass
  have short := inPass.le_five
  have passes : x.passes (moves ++ [.own]) = x.passes moves := passes_of_not_looks looks _
  have run : x.run (moves ++ [.own]) = (x.run moves).goOn := run_snoc ..
  have others : ReaderMove.others (moves ++ [.own]) = ReaderMove.others moves := by simp
  have few : x.passes (moves ++ [.own]) ≤ ReaderMove.acts owner (moves ++ [.own]) + 1 := by
    rw [passes, ReaderMove.acts_own]
    exact h.few
  have comes := comes_of_inPass poised past inPass
  obtain ⟨upper₀, context⟩ := aside.context
  generalize next : (x.run moves).goOn = x' at comes
  cases comes with
  | ends p course answer =>
    refine h.snoc_of_settled (fun _ => not_startsOver (next ▸ not_looks_of_stopped course)) few
      (Or.inl ⟨p, by rw [run, next, course], ?_⟩)
    rw [context] at answer
    exact answer.of_has_iff has
  | aborts e c same =>
    subst same
    refine h.snoc_of_settled (fun _ => not_startsOver (by rw [next]; rfl)) few (Or.inr ?_)
    rw [run, next, others]
    exact ⟨⟨aside.system, aside.context⟩,
      .aborting e c (by rw [run, next]) few (by rw [passes, ReaderMove.ownSteps_own]; omega)⟩
  | goesOn course n' upper same inPass' later =>
    subst same
    refine h.snoc_of_settled (fun _ => not_startsOver (by rw [next]; exact not_looks_of_inPass inPass')) few
      (Or.inr ?_)
    rw [run, next, others]
    refine ⟨⟨aside.system, upper, by rw [context]⟩,
      .inPass stamp n' ?_ ?_ (saw.goesOn (by rw [looks]; rfl) fun free => Or.inl ?_) ?_⟩
    · rw [run, next]
      exact inPass'
    · rw [run, next]
      exact past
    · rw [run, next]
      exact free
    · rw [passes, ReaderMove.ownSteps_own]
      omega
  | startsOver same changed =>
    subst same
    obtain ⟨interrupted, few'⟩ := saw.interrupted changed
    refine h.snoc (fun _ _ => interrupted) few (Or.inr ?_)
    rw [run, next, others]
    exact ⟨⟨aside.system, aside.context⟩,
      .looking (by rw [run, next]) (by rw [passes, ReaderMove.acts_own]; exact few')
        (by rw [passes, ReaderMove.ownSteps_own]; omega)⟩

theorem own_of_aborting (h : x.Follows t owner l k slot moves)
    (aside : (x.run moves).Aside (t.run (ReaderMove.others moves)).system x.context)
    (holding : (x.run moves).scope.Holding) {e : Event} {c : Conflict}
    (aborting : (x.run moves).course = .stopped (.standing e (.abort c .access)))
    (has : (x.run moves).system.runtime.memory.Has l ↔ t.system.runtime.memory.Has l) :
    x.Follows t owner l k slot (moves ++ [.own]) := by
  obtain ⟨p, course, answer⟩ := answer_of_aborting (l := l) holding aborting
  obtain ⟨upper, context⟩ := aside.context
  refine h.snoc_of_settled (fun _ => not_startsOver (not_looks_of_stopped course)) ?_ (Or.inl ⟨p, ?_, ?_⟩)
  · rw [passes_of_not_looks (not_looks_of_stopped aborting), ReaderMove.acts_own]
    exact h.few
  · rw [run_snoc]
    exact course
  · rw [context] at answer
    exact answer.of_has_iff has

/-- A step of the read. -/
theorem own (h : x.Follows t owner l k (t.system.runtime.table.slotOf l) moves) {w : Worker}
    (context : x.context = w.context) (active : w.context.phase = .active)
    (here : (t.run (ReaderMove.others moves)).system.worker? owner = some w)
    (unheld : w.context.writes.stamp? (t.system.runtime.table.slotOf l) = none)
    (orderly : t.OrderlyAlong (ReaderMove.others moves)) (mindful : (t.run (ReaderMove.others moves)).Mindful) :
    x.Follows t owner l k (t.system.runtime.table.slotOf l) (moves ++ [.own]) := by
  rcases h.stands with ⟨p, ended, answer⟩ | ⟨aside, stands⟩
  · exact h.of_ended ended answer _
  · obtain ⟨upper, bound⟩ := aside.context
    have scope : (x.run moves).scope =
        ⟨(t.run (ReaderMove.others moves)).system.runtime, { w.context with upper }⟩ := by
      rw [scope, aside.system, bound, context]
    have place : (t.run (ReaderMove.others moves)).system.runtime.table.slotOf l = t.system.runtime.table.slotOf l :=
      congrFun (t.akin_run _).slotOf l
    have poised : (x.run moves).scope.Poised (t.system.runtime.table.slotOf l) := by
      rw [← place] at unheld ⊢
      obtain ⟨inside, foreign, past, logs⟩ := mindful.poised orderly.last here active unheld
      rw [scope]
      exact ⟨inside, foreign, past, logs⟩
    have holding : (x.run moves).scope.Holding := by
      obtain ⟨wellFormed, held, small, listed, idle⟩ := orderly.last.holding owner w here
      rw [scope]
      exact ⟨wellFormed, held, small, listed, idle⟩
    have has : (x.run moves).system.runtime.memory.Has l ↔ t.system.runtime.memory.Has l := by
      rw [aside.system]
      exact orderly.has_iff l
    cases stands with
    | looking looking few brief => exact h.own_of_looking aside poised looking few brief
    | inPass stamp n inPass past saw brief => exact h.own_of_inPass aside poised inPass past saw brief has
    | aborting e c aborting => exact h.own_of_aborting aside holding aborting has

/-- A step of the others. -/
theorem beside (h : x.Follows t owner l k slot moves) {a : Action α ε} (other : a.owner? ≠ some owner)
    (orderly : (t.run (ReaderMove.others moves)).system.Orderly)
    (small : (t.run (ReaderMove.others moves)).system.runtime.clock.now < lockBit - 1) :
    x.Follows t owner l k slot (moves ++ [.other a]) := by
  rcases h.stands with ⟨p, ended, answer⟩ | ⟨aside, stands⟩
  · exact h.of_ended ended answer _
  · have passes : x.passes (moves ++ [.other a]) = x.passes moves := passes_snoc ..
    have more : ReaderMove.acts owner moves ≤ ReaderMove.acts owner (moves ++ [.other a]) := by
      rw [ReaderMove.acts_append]
      exact Nat.le_add_right _ _
    have run : x.run (moves ++ [.other a]) = (x.run moves).step (.other a) := run_snoc ..
    have after : (t.run (ReaderMove.others (moves ++ [.other a]))).system =
        ((t.run (ReaderMove.others moves)).system.step a).2 := by
      rw [ReaderMove.others_append, ReaderMove.others_other, Chronicle.run_snoc, Chronicle.system_step]
    have few := h.few
    refine h.snoc_of_settled (fun own => by cases own) (by omega) (Or.inr ?_)
    rw [run, after]
    refine ⟨⟨by rw [step, aside.system], aside.context⟩, ?_⟩
    cases stands with
    | looking looking few brief =>
      exact .looking (by rw [run]; exact looking) (by omega) (by rw [passes, ReaderMove.ownSteps_other]; exact brief)
    | aborting e c aborting few brief =>
      exact .aborting e c (by rw [run]; exact aborting) (by omega)
        (by rw [passes, ReaderMove.ownSteps_other]; exact brief)
    | inPass stamp n inPass past saw brief =>
      refine .inPass stamp n ?_ ?_ (saw.goesOn rfl fun free => ?_) ?_
      · rw [run]
        exact inPass
      · rw [run, step, aside.system]
        rw [aside.system] at past
        exact past.trans (orderly.clock_le a small)
      · by_cases still : (x.run (moves ++ [.other a])).word slot = .free stamp
        · exact Or.inl still
        · rw [word, run, step, aside.system] at still ⊢
          rw [word, aside.system] at free
          obtain ⟨o, action, rfl, held⟩ := orderly.taken_of_changed free still
          exact Or.inr ⟨o, action, rfl, fun same => other (congrArg some same), held⟩
      · rw [passes, ReaderMove.ownSteps_other]
        exact brief

end Follows

end Reader

namespace Chronicle

variable {t : Chronicle} {owner : OwnerId} {w : Worker} {l : Location} {k : Kind} {moves : List (ReaderMove α ε)}

/-- A worker stays as it is while others act. -/
theorem worker?_run_of_others {actions : List (Action α ε)} (others : ∀ a ∈ actions, a.owner? ≠ some owner) :
    (t.run actions).system.worker? owner = t.system.worker? owner := by
  induction actions using List.reverseRecOn with
  | nil => rfl
  | append_singleton actions a ih =>
    rw [run_snoc, system_step, System.worker?_step_of_ne (others a (by simp))]
    exact ih fun b member => others b (List.mem_append_left _ member)

/-- The course of a read of a slot that its context does not hold. -/
theorem follows (here : t.system.worker? owner = some w) (active : w.context.phase = .active)
    (unheld : w.context.writes.stamp? (t.system.runtime.table.slotOf l) = none)
    (others : ∀ a ∈ ReaderMove.others moves, a.owner? ≠ some owner)
    (orderly : t.OrderlyAlong (ReaderMove.others moves))
    (mindful : ∀ pre post, ReaderMove.others moves = pre ++ post → (t.run pre).Mindful)
    (clock : ∀ pre post, ReaderMove.others moves = pre ++ post →
      (t.run pre).system.runtime.clock.now < lockBit - 1) :
    (Reader.start t.system w.context l k).Follows t owner l k (t.system.runtime.table.slotOf l) moves := by
  induction moves using List.reverseRecOn with
  | nil => exact .start t owner w.context l k
  | append_singleton moves move ih =>
    rw [ReaderMove.others_append] at others orderly mindful clock
    have follows := ih (fun a member => others a (List.mem_append_left _ member))
      (fun pre post split => orderly pre (post ++ ReaderMove.others [move]) (by rw [split, List.append_assoc]))
      (fun pre post split => mindful pre (post ++ ReaderMove.others [move]) (by rw [split, List.append_assoc]))
      (fun pre post split => clock pre (post ++ ReaderMove.others [move]) (by rw [split, List.append_assoc]))
    cases move with
    | own =>
      have orderly : t.OrderlyAlong (ReaderMove.others moves) := fun pre post split =>
        orderly pre post (by rw [ReaderMove.others_own, List.append_nil, split])
      refine follows.own rfl active ?_ unheld orderly (mindful _ _ rfl)
      rw [worker?_run_of_others fun a member => others a (List.mem_append_left _ member)]
      exact here
    | other a =>
      exact follows.beside (others a (List.mem_append_right _ (List.mem_singleton_self a))) (orderly _ _ rfl)
        (clock _ _ rfl)

end Chronicle

/-- In every reachable state, in any mode, for every read of a slot that its context does not hold, with any actions of
    others between the steps of its loop: whenever the read starts over, another context has taken the slot since the
    pass looked at it.  So it makes one pass if no other context acts, and at most one more than others act; after six
    steps for each pass it has ended, with a value or an abort, and meets no fault unless the field does not exist or a
    counter of aborts is full.  A call of the owner for the field is such a read, with the others acting at its
    events. -/
theorem reads_start_over_only_if_interrupted {settings : Settings} {r : Runtime} (new : Runtime.new? settings = .ok r)
    (m : Memory) (before : List (Action α ε)) {owner : OwnerId} {w : Worker}
    (here : ((Chronicle.start r m).run before).system.worker? owner = some w) (idle : w.isBusy = false)
    (active : w.context.phase = .active) {l : Location} {k : Kind}
    (unheld : w.context.writes.stamp? (r.table.slotOf l) = none) :
    let t := (Chronicle.start r m).run before
    let x := Reader.start t.system w.context l k
    let answers := ReadAnswer t.system.runtime.memory w.context.tally l
    (∀ moves : List (ReaderMove α ε), (∀ a ∈ ReaderMove.others moves, a.owner? ≠ some owner) →
      (before ++ ReaderMove.others moves).countP Action.isAnnounce < lockBit →
      (∀ n ≤ (before ++ ReaderMove.others moves).length,
        ((Chronicle.start r m).run ((before ++ ReaderMove.others moves).take n)).system.runtime.clock.now <
          lockBit - 1) →
      (∀ pre post, moves = pre ++ .own :: post → (x.run pre).startsOver = true →
        x.Interrupted owner (r.table.slotOf l) pre) ∧
      x.passes moves ≤ ReaderMove.acts owner moves + 1 ∧
      (ReaderMove.acts owner moves = 0 → 0 < ReaderMove.ownSteps moves → x.passes moves = 1) ∧
      (∀ p, (x.run moves).course = .stopped p → (∃ e rest, p = .standing e rest) ∨ answers p) ∧
      (6 * (ReaderMove.acts owner moves + 1) < ReaderMove.ownSteps moves →
        ∃ p, (x.run moves).course = .stopped p ∧ answers p)) ∧
    ∀ request, (request = .load l k ∨ request = .read l k) → ∀ (sofar : List (Action α ε)) (response : Response α ε),
      Call owner (.call request) t sofar response → ∃ (moves : List (ReaderMove α ε)) (p : Progress),
        ReaderMove.others moves = sofar.filter (·.owner? ≠ some owner) ∧ (x.run moves).course = .stopped p ∧
          response = p.response := by
  intro t x answers
  have place : t.system.runtime.table.slotOf = r.table.slotOf := ((Chronicle.start r m).akin_run before).slotOf
  rw [← place] at unheld ⊢
  refine ⟨fun moves others owners clock => ?_, fun request reads sofar response call => ?_⟩
  · have follows := Chronicle.follows (k := k) here active unheld others (Chronicle.orderlyAlong_run new m owners)
      (fun _ _ => Chronicle.mindful_of_append new m owners clock) fun pre post split => by
        rw [← Chronicle.run_append]
        have now := clock (before ++ pre).length (by simp only [split, List.length_append]; omega)
        rwa [split, ← List.append_assoc, List.take_left] at now
    refine ⟨follows.interrupted, follows.few, fun alone goesOn => ?_, fun p course => ?_, fun long => ?_⟩
    · have begun := Reader.passes_pos (x := x) rfl goesOn
      have few : x.passes moves ≤ ReaderMove.acts owner moves + 1 := follows.few
      omega
    · rcases follows.stands with ⟨p', ended, answer⟩ | ⟨-, stands⟩
      · cases ended.symm.trans course
        exact Or.inr answer
      · left
        cases stands with
        | looking looking => cases looking.symm.trans course
        | aborting e c aborting =>
          cases aborting.symm.trans course
          exact ⟨_, _, rfl⟩
        | inPass stamp n inPass =>
          rw [course] at inPass
          cases inPass
          exact ⟨_, _, rfl⟩
    · rcases follows.stands with ended | ⟨-, stands⟩
      · exact ended
      · exact absurd stands.brief (Nat.not_le_of_lt long)
  · obtain ⟨moves, p, same, told, mirrors⟩ := Chronicle.reader_of_call call reads here idle active unheld
    exact ⟨moves, p, same, mirrors.course, told⟩

/-- An elastic context reads a field, and another one commits to the field twice inside of the read: after the value is
    loaded, and after the bound has moved.  The read starts over twice, and answers with the value of the last commit.
    The call of a regular context, with a commit at its event, is such a read too. -/
theorem reads_start_over_only_if_interrupted_of_three :
    let commits (v : UInt64) : List (Action Unit Unit) :=
      [.act ⟨2⟩ (.call (.start 0 .regular)), .act ⟨2⟩ (.call (.write ⟨16, 0⟩ (.u64 v))), .act ⟨2⟩ (.call .commit)]
    let before (mode : Mode) : List (Action Unit Unit) :=
      [.announce, .announce, .register ⟨1⟩, .register ⟨2⟩, .act ⟨1⟩ (.call (.start 0 mode))] ++ commits 8
    let t (mode : Mode) := (Chronicle.start smallRuntime pair).run (before mode)
    let x (mode : Mode) (w : Worker) := Reader.start (t mode).system w.context ⟨16, 0⟩ .u64
    let loaded := [.own, .own] ++ (commits 9).map ReaderMove.other
    let moved := loaded ++ .own :: [.own, .own, .own, .own] ++ (commits 10).map ReaderMove.other
    let moves := moved ++ .own :: [.own, .own, .own, .own, .own]
    let call : Action Unit Unit := .act ⟨1⟩ (.call (.read ⟨16, 0⟩ .u64))
    let sofar := [call] ++ commits 9 ++ [.act ⟨1⟩ .resume, .act ⟨1⟩ .resume]
    (∃ w, (t .elastic).system.worker? ⟨1⟩ = some w ∧ (x .elastic w).passes moves = 3 ∧
      (x .elastic w).passes moves ≤ ReaderMove.acts ⟨1⟩ moves + 1 ∧
      (x .elastic w).Interrupted ⟨1⟩ (smallRuntime.table.slotOf ⟨16, 0⟩) loaded ∧
      (x .elastic w).Interrupted ⟨1⟩ (smallRuntime.table.slotOf ⟨16, 0⟩) moved ∧
      ((x .elastic w).run moves).course = .stopped (.answered (.value (.u64 10)))) ∧
    ∃ w, (t .regular).system.worker? ⟨1⟩ = some w ∧
      Call ⟨1⟩ (.call (.read ⟨16, 0⟩ .u64)) (t .regular) sofar (.replied (.value (.u64 9)) : Response Unit Unit) ∧
      ∃ (moves : List (ReaderMove Unit Unit)) (p : Progress),
        ReaderMove.others moves = sofar.filter (·.owner? ≠ some ⟨1⟩) ∧ ((x .regular w).run moves).course = .stopped p ∧
          (.replied (.value (.u64 9)) : Response Unit Unit) = p.response := by
  intro commits before t x loaded moved moves call sofar
  constructor
  · have found : ∃ w ∈ (t .elastic).system.worker? ⟨1⟩, w.isBusy = false ∧ w.context.phase = .active ∧
        w.context.writes.stamp? (smallRuntime.table.slotOf ⟨16, 0⟩) = none ∧ (x .elastic w).passes moves = 3 ∧
        ((x .elastic w).run loaded).startsOver = true ∧ ((x .elastic w).run moved).startsOver = true ∧
        ((x .elastic w).run moves).course = .stopped (.answered (.value (.u64 10))) := by decide +kernel
    obtain ⟨w, here, idle, active, unheld, passes, first, second, ends⟩ := found
    obtain ⟨interrupted, few, -⟩ := (reads_start_over_only_if_interrupted smallRuntime_new pair (before .elastic) here
      idle active (k := .u64) unheld).1 moves (by decide) (by decide) (by decide +kernel)
    exact ⟨w, here, passes, few, interrupted loaded _ (by rfl) first, interrupted moved _ (by rfl) second, ends⟩
  · have found : ∃ w ∈ (t .regular).system.worker? ⟨1⟩, w.isBusy = false ∧ w.context.phase = .active ∧
        w.context.writes.stamp? (smallRuntime.table.slotOf ⟨16, 0⟩) = none := by decide +kernel
    obtain ⟨w, here, idle, active, unheld⟩ := found
    have first : Call ⟨1⟩ (.call (.read ⟨16, 0⟩ .u64)) (t .regular) [call] ((t .regular).system.step call).1 := .begin
    have stands : ((t .regular).system.step call).1.isOpen = true := by decide +kernel
    have beside : Call ⟨1⟩ (.call (.read ⟨16, 0⟩ .u64)) (t .regular) ([call] ++ commits 9)
        ((t .regular).system.step call).1 :=
      ((first.beside _ stands (by decide)).beside _ stands (by decide)).beside _ stands (by decide)
    have again := beside.resume stands
    have course := again.resume (by decide +kernel)
    have told : (((t .regular).run (([call] ++ commits 9) ++ [.act ⟨1⟩ .resume])).system.step
        (.act ⟨1⟩ .resume : Action Unit Unit)).1 = .replied (.value (.u64 9)) := by decide +kernel
    rw [told, List.append_assoc] at course
    exact ⟨w, here, course, (reads_start_over_only_if_interrupted smallRuntime_new pair (before .regular) here idle
      active unheld).2 _ (Or.inr rfl) sofar _ course⟩

end TransactionalMemory
