import TransactionalMemory.Proofs.Runs

/-! # Versions describe memory

The words of memory are those that the commits have left, one over the other in the order of their
stamps, and what stands in the lock table for a slot is the largest stamp among the commits that wrote
under it (`versions_describe_memory`).  So a stamp that is met twice in a free slot is a proof that no
field under the slot has changed in between.

The invariant says so for one moment.  That stamps do not go back is about two moments of a run, and
follows because the record of commits only ever grows at its end, with stamps beyond the clock
(`Chronicle.Grown`).
-/

namespace TransactionalMemory

variable {α ε : Type} {allowed : Mode → Prop} {m₀ : Memory}

/-! ## The last commit under a slot -/

/-- Whether a commit wrote a location under the slot. -/
def Commit.Wrote (x : Commit) (slotOf : Location → Nat) (slot : Nat) : Prop :=
  ∃ e ∈ x.context.writes.entries, slotOf e.location = slot

/-- The largest stamp of the commits that wrote under a slot, zero if there are none. -/
def LargestStamp (slotOf : Location → Nat) (commits : List Commit) (slot stamp : Nat) : Prop :=
  (∃ x ∈ commits, x.Wrote slotOf slot ∧ x.stamp = stamp ∧
    ∀ y ∈ commits, y.Wrote slotOf slot → y.stamp ≤ stamp) ∨
  stamp = 0 ∧ ∀ x ∈ commits, ¬ x.Wrote slotOf slot

theorem largestStamp_version {slotOf : Location → Nat} {commits : List Commit}
    (ordered : commits.Pairwise (·.stamp < ·.stamp))
    (logs : ∀ x ∈ commits, x.context.writes.WellFormed slotOf) (slot : Nat) :
    LargestStamp slotOf commits slot (version commits slot) := by
  induction commits using List.reverseRecOn with
  | nil => exact Or.inr ⟨rfl, List.forall_mem_nil _⟩
  -- The commit with the largest stamp stands last, so commits are taken off at the end.
  | append_singleton commits x ih =>
    obtain ⟨ordered, -, before⟩ := List.pairwise_append.mp ordered
    have last : x ∈ commits ++ [x] := List.mem_append_right _ (List.mem_singleton_self x)
    have owns : x.context.writes.owns slot = true ↔ x.Wrote slotOf slot :=
      (logs x last).owns_iff_exists
    rw [version_append]
    split
    · next wrote =>
      refine Or.inl ⟨x, last, owns.mp wrote, rfl, ?_⟩
      intro y member _
      cases List.mem_append.mp member with
      | inl member => exact Nat.le_of_lt (before y member x (List.mem_singleton_self x))
      | inr single => rw [List.mem_singleton.mp single]
    · next unwritten =>
      have other : ¬ x.Wrote slotOf slot := fun wrote => unwritten (owns.mpr wrote)
      rcases ih ordered (fun y member => logs y (List.mem_append_left _ member)) with
        ⟨y, member, wrote, stamp, largest⟩ | ⟨zero, none⟩
      · refine Or.inl ⟨y, List.mem_append_left _ member, wrote, stamp, ?_⟩
        intro z member wroteZ
        cases List.mem_append.mp member with
        | inl member => exact largest z member wroteZ
        | inr single => exact absurd (List.mem_singleton.mp single ▸ wroteZ) other
      · refine Or.inr ⟨zero, ?_⟩
        intro z member
        cases List.mem_append.mp member with
        | inl member => exact none z member
        | inr single => exact List.mem_singleton.mp single ▸ other

/-- What a system has as the version of a slot: the stamp of a free slot, and the stamp that the holder
    of a held one remembers. -/
def System.version? (s : System) (slot : Nat) : Option Nat :=
  match s.runtime.table.word slot with
  | .free stamp => some stamp
  | .held o => (s.worker? o).bind (·.context.writes.stamp? slot)

theorem Chronicle.Coherent.version?_eq {t : Chronicle} (h : t.Coherent allowed m₀) (slot : Nat) :
    t.system.version? slot = some (version t.commits slot) := by
  unfold System.version?
  cases word : t.system.runtime.table.word slot with
  | free stamp => rw [h.ledger.free slot stamp word]
  | held o =>
    cases there : t.system.worker? o with
    | none => exact absurd word (h.strangers o there slot)
    | some w =>
      have seated := h.seats o w there
      have held : t.system.runtime.table.word slot = .held w.context.owner := by
        rw [seated.owner]
        exact word
      obtain ⟨stamp, own⟩ := seated.sound.holding.stamp?_of_held held
      have remembered : version t.commits slot = stamp := seated.sound.owning.remembered slot stamp own
      show (t.system.worker? o).bind _ = some (version t.commits slot)
      rw [there, remembered]
      exact own

/-! ## Two moments of a run -/

namespace Chronicle

/-- The record of commits has grown at its end, by commits beyond the clock. -/
structure Grown (t t' : Chronicle) : Prop where
  bits : t'.system.runtime.table.bits = t.system.runtime.table.bits
  clock : t.system.runtime.clock.now ≤ t'.system.runtime.clock.now
  later : ∃ new, t'.commits = t.commits ++ new ∧ ∀ x ∈ new, t.system.runtime.clock.now < x.stamp

variable {t t' t'' : Chronicle}

protected theorem Grown.refl (t : Chronicle) : Grown t t where
  bits := rfl
  clock := Nat.le_refl _
  later := ⟨[], (List.append_nil _).symm, List.forall_mem_nil _⟩

protected theorem Grown.trans (first : Grown t t') (second : Grown t' t'') : Grown t t'' where
  bits := second.bits.trans first.bits
  clock := Nat.le_trans first.clock second.clock
  later := by
    obtain ⟨new, same, later⟩ := first.later
    obtain ⟨new', same', later'⟩ := second.later
    refine ⟨new ++ new', by rw [same', same, List.append_assoc], ?_⟩
    intro x member
    cases List.mem_append.mp member with
    | inl member => exact later x member
    | inr member => exact Nat.lt_of_le_of_lt first.clock (later' x member)

theorem Coherent.grown_change (h : t.Coherent allowed m₀) {new : Bool}
    (c : Change allowed t new t') : Grown t t' := by
  cases c with
  | moved owner w d moved =>
    have seated := h.seats owner w moved.here
    -- Whoever is not the one that moved can rely on the growth.
    have rely : Rely ⟨owner.id + 1⟩ (t.seat owner w) d :=
      seated.sound.rely_moves moved.moves fun same =>
        Nat.succ_ne_self _ (congrArg OwnerId.id (same.trans seated.owner))
    refine ⟨?_, ?_, ?_⟩
    · rw [moved.runtime]
      exact rely.bits
    · rw [moved.runtime]
      exact rely.clock
    · rw [moved.commits]
      exact rely.later
  | _ => exact ⟨rfl, Nat.le_refl _, [], (List.append_nil _).symm, List.forall_mem_nil _⟩

theorem grown_run {settings : Settings} {r : Runtime} {m : Memory}
    (new : Runtime.new? settings = .ok r) (before after : List (Action α ε))
    (limits : WithinLimits (start r m).system (before ++ after)) :
    Grown ((start r m).run before) ((start r m).run (before ++ after)) :=
  run_rest new (Grown _) (fun coherent change grown => grown.trans (coherent.grown_change change)) before
    after limits (.refl _)

theorem Grown.version_le (grown : Grown t t') (h : t.Coherent allowed m₀) (slot : Nat) :
    version t.commits slot ≤ version t'.commits slot := by
  obtain ⟨new, same, later⟩ := grown.later
  rw [same]
  clear same
  induction new using List.reverseRecOn with
  | nil => rw [List.append_nil]
  | append_singleton new x ih =>
    rw [← List.append_assoc, version_append]
    split
    · have beyond := later x (List.mem_append_right _ (List.mem_singleton_self x))
      exact Nat.le_of_lt (Nat.lt_of_le_of_lt (h.ledger.version_le_now slot) beyond)
    · exact ih fun y member => later y (List.mem_append_left _ member)

/-- A field whose slot has kept its version has kept its word. -/
theorem Grown.words_eq (grown : Grown t t') (h : t.Coherent allowed m₀) (h' : t'.Coherent allowed m₀)
    {l : Location} {slot : Nat} (here : t'.system.runtime.table.slotOf l = slot)
    (same : version t'.commits slot = version t.commits slot) :
    t'.system.runtime.memory.words l = t.system.runtime.memory.words l := by
  obtain ⟨new, commits, later⟩ := grown.later
  have here₀ : t.system.runtime.table.slotOf l = slot := by
    rw [← here, LockTable.slotOf_congr grown.bits]
  have recent : ∀ x ∈ new, version t.commits slot < x.stamp := fun x member =>
    Nat.lt_of_le_of_lt (h.ledger.version_le_now slot) (later x member)
  -- Both words are what the commits up to the version have left, and the new commits came after it.
  calc t'.system.runtime.memory.words l
      = contentAt m₀.words t'.commits (version t.commits slot) l :=
        (h'.ledger.contentAt_eq (by rw [here, same])).symm
    _ = contentAt m₀.words t.commits (version t.commits slot) l := by
        rw [commits, contentAt_append recent]
    _ = t.system.runtime.memory.words l := h.ledger.contentAt_eq (by rw [here₀])

end Chronicle

/-! ## Versions and memory -/

/-- In a run of any contexts, memory is what the commits have left, in the order of their stamps, and no
    read of memory, inside an attempt or outside, has met anything else.  The version of every slot is
    the largest stamp of the commits that wrote under it.  A free slot's stamp does not go back, and
    while it is the same, so are the fields under the slot. -/
theorem versions_describe_memory {settings : Settings} {r : Runtime}
    (new : Runtime.new? settings = .ok r) (m : Memory) (actions : List (Action α ε))
    (limits : WithinLimits (Chronicle.start r m).system actions) :
    let t := (Chronicle.start r m).run actions
    (t.system.runtime.memory.words = committed m.words t.commits ∧
      (∀ l kind, m.Has l → t.system.runtime.memory.peek l kind =
        .ok (Value.decode (committed m.words t.commits l) kind)) ∧
      ∀ o w, t.system.worker? o = some w → w.context.phase = .active →
        ∀ q ∈ fromMemory (t.attempts o).accesses, q.HoldsIn (contentAt m.words t.commits q.time)) ∧
    t.commits.Pairwise (·.stamp < ·.stamp) ∧
    (∀ slot, ∃ stamp, t.system.version? slot = some stamp ∧
      LargestStamp t.system.runtime.table.slotOf t.commits slot stamp ∧
      stamp ≤ t.system.runtime.clock.now) ∧
    ∀ before after, actions = before ++ after →
      let t₀ := (Chronicle.start r m).run before
      ∀ slot earlier later, t₀.system.runtime.table.word slot = .free earlier →
        t.system.runtime.table.word slot = .free later →
        earlier ≤ later ∧ (earlier = later → ∀ l, t.system.runtime.table.slotOf l = slot →
          t.system.runtime.memory.words l = t₀.system.runtime.memory.words l) := by
  intro t
  have coherent : t.Coherent (fun _ => True) m := (Chronicle.coherent_run_any new limits).1
  have ledger := coherent.ledger
  refine ⟨⟨ledger.words, ?_, ?_⟩, ledger.ordered, ?_, ?_⟩
  · intro l kind exist
    rw [Memory.peek_eq_ok_iff, ledger.words]
    exact ⟨(ledger.shape.has l).mpr exist, rfl⟩
  · intro o w there active q member
    exact ((coherent.seats o w there).sound.dated.time active q member).2.2
  · intro slot
    exact ⟨_, coherent.version?_eq slot, largestStamp_version ledger.ordered ledger.logs slot,
      ledger.version_le_now slot⟩
  · intro before after split t₀ slot earlier later word₀ word
    subst split
    have coherent₀ : t₀.Coherent (fun _ => True) m :=
      (Chronicle.coherent_run_any new limits.of_append).1
    have grown : Chronicle.Grown t₀ t := Chronicle.grown_run new before after limits
    have version₀ : version t₀.commits slot = earlier := coherent₀.ledger.free slot earlier word₀
    have version_ : version t.commits slot = later := ledger.free slot later word
    constructor
    · rw [← version₀, ← version_]
      exact grown.version_le coherent₀ slot
    · intro same l here
      exact grown.words_eq coherent₀ coherent here (by rw [version₀, version_, same])

/-- One context commits, another one rolls back and then holds a slot: the slots carry the stamp of the
    commit, the old stamp, and an owner who remembers it. -/
theorem versions_describe_memory_of_two :
    let actions : List (Action Unit Unit) :=
      [.announce, .announce, .register ⟨1⟩, .register ⟨2⟩,
       .act ⟨1⟩ (.call (.start 0 .elastic)), .act ⟨2⟩ (.call (.start 0 .regular)),
       .act ⟨1⟩ (.call (.write ⟨16, 0⟩ (.u64 7))), .act ⟨2⟩ (.call (.write ⟨16, 1⟩ (.u64 8))),
       .act ⟨1⟩ (.call .commit), .act ⟨2⟩ (.call .rollback),
       .act ⟨2⟩ (.call (.start 0 .regular)), .act ⟨2⟩ (.call (.write ⟨16, 1⟩ (.u64 9)))]
    let t := (Chronicle.start smallRuntime pair).run actions
    t.commits.length = 1 ∧ t.system.runtime.table.word (smallRuntime.table.slotOf ⟨16, 0⟩) = .free 1 ∧
      t.system.runtime.table.word (smallRuntime.table.slotOf ⟨16, 1⟩) = .held ⟨2⟩ ∧
      t.system.version? (smallRuntime.table.slotOf ⟨16, 1⟩) = some 0 ∧
      t.system.runtime.memory.words = committed pair.words t.commits ∧
      t.commits.Pairwise (·.stamp < ·.stamp) := by
  intro actions t
  have limits : WithinLimits (Chronicle.start smallRuntime pair).system actions :=
    ⟨by decide +kernel, by decide +kernel, by decide⟩
  have described := versions_describe_memory smallRuntime_new pair actions limits
  exact ⟨by decide +kernel, by decide +kernel, by decide +kernel, by decide +kernel, described.1.1,
    described.2.1⟩

end TransactionalMemory
