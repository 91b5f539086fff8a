import TransactionalMemory.Proofs.Invariant

/-! # What others may do to a context

Between two moves of a context, others move.  `Rely` is what the context can count on all the same:
the clock does not go back, new commits have later stamps, and the slots that it holds stay as they
are, locks and versions.  A move of one context gives every other context this much (`Sound.rely_move`),
and the invariant of a context needs no more (`Sound.beside`).
-/

namespace TransactionalMemory

/-- What an owner can rely on while others move. -/
structure Rely (owner : OwnerId) (d d' : Seat) : Prop where
  settings : d'.runtime.settings = d.runtime.settings
  bits : d'.runtime.table.bits = d.runtime.table.bits
  clock : d.runtime.clock.now ≤ d'.runtime.clock.now
  later : ∃ new, d'.commits = d.commits ++ new ∧ ∀ x ∈ new, d.runtime.clock.now < x.stamp
  kept : ∀ slot, d.runtime.table.word slot = .held owner →
    d'.runtime.table.word slot = .held owner ∧ version d'.commits slot = version d.commits slot
  only : ∀ slot, d'.runtime.table.word slot = .held owner → d.runtime.table.word slot = .held owner
  shape : d.runtime.memory.SameShape d'.runtime.memory

namespace Rely

variable {owner : OwnerId} {d d' d'' : Seat}

theorem of_words (settings : d'.runtime.settings = d.runtime.settings)
    (bits : d'.runtime.table.bits = d.runtime.table.bits)
    (words : ∀ slot, d'.runtime.table.word slot = .held owner ↔ d.runtime.table.word slot = .held owner)
    (memory : d'.runtime.memory = d.runtime.memory) (commits : d'.commits = d.commits)
    (clock : d.runtime.clock.now ≤ d'.runtime.clock.now) : Rely owner d d' where
  settings := settings
  bits := bits
  clock := clock
  later := ⟨[], by rw [commits, List.append_nil], fun x member => by cases member⟩
  kept slot held := ⟨(words slot).mpr held, by rw [commits]⟩
  only slot held := (words slot).mp held
  shape := by rw [memory]; exact fun _ => rfl

theorem of_clock (settings : d'.runtime.settings = d.runtime.settings)
    (table : d'.runtime.table = d.runtime.table) (memory : d'.runtime.memory = d.runtime.memory)
    (commits : d'.commits = d.commits) (clock : d.runtime.clock.now ≤ d'.runtime.clock.now) :
    Rely owner d d' :=
  of_words settings (by rw [table]) (fun _ => by rw [table]) memory commits clock

protected theorem refl (owner : OwnerId) (d : Seat) : Rely owner d d :=
  of_clock rfl rfl rfl rfl (Nat.le_refl _)

protected theorem trans (first : Rely owner d d') (second : Rely owner d' d'') : Rely owner d d'' where
  settings := second.settings.trans first.settings
  bits := second.bits.trans first.bits
  clock := Nat.le_trans first.clock second.clock
  later := by
    obtain ⟨new, same, later⟩ := first.later
    obtain ⟨new', same', later'⟩ := second.later
    refine ⟨new ++ new', by rw [same', same, List.append_assoc], ?_⟩
    intro x member
    cases List.mem_append.mp member with
    | inl member => exact later x member
    | inr member => exact Nat.lt_of_le_of_lt first.clock (later' x member)
  kept slot held := by
    obtain ⟨held', same⟩ := first.kept slot held
    obtain ⟨held'', same'⟩ := second.kept slot held'
    exact ⟨held'', same'.trans same⟩
  only slot held := first.only slot (second.only slot held)
  shape address := (second.shape address).trans (first.shape address)

theorem congr (h : Rely owner d d') {e e' : Seat} (runtime : e.runtime = d.runtime)
    (commits : e.commits = d.commits) (runtime' : e'.runtime = d'.runtime)
    (commits' : e'.commits = d'.commits) : Rely owner e e' := by
  constructor <;> simp only [runtime, runtime', commits, commits']
  · exact h.settings
  · exact h.bits
  · exact h.clock
  · exact h.later
  · exact h.kept
  · exact h.only
  · exact h.shape

theorem slotOf (h : Rely owner d d') : d'.slotOf = d.slotOf := LockTable.slotOf_congr h.bits

theorem content (h : Rely owner d d') {time : Nat} (past : time ≤ d.runtime.clock.now) (m₀ : Memory) :
    d'.content m₀ time = d.content m₀ time := by
  obtain ⟨new, same, later⟩ := h.later
  rw [Seat.content, same,
    contentAt_append (fun x member => Nat.lt_of_le_of_lt past (later x member)) m₀.words]

end Rely

/-! ## The invariant under interference -/

/-- A seat after others have changed the runtime and the history. -/
def Seat.beside (d d' : Seat) : Seat :=
  { d with runtime := d'.runtime, commits := d'.commits, readOnly := d'.readOnly }

section

variable {allowed : Mode → Prop} {m₀ : Memory} {d d' : Seat}

theorem Seat.Owning.beside (h : d.Owning) (rely : Rely d.context.owner d d') :
    (d.beside d').Owning where
  wellFormed := by
    rw [show (d.beside d').runtime.table.slotOf = d.slotOf from rely.slotOf]
    exact h.wellFormed
  held slot stamp own := (rely.kept slot (h.held slot stamp own)).1
  remembered slot stamp own :=
    (rely.kept slot (h.held slot stamp own)).2.trans (h.remembered slot stamp own)
  listed slot held := h.listed slot (rely.only slot held)
  idle := h.idle
  exist l v logged := by
    rw [show (d.beside d').slotOf = d.slotOf from rely.slotOf] at logged
    exact (rely.shape.has l).mpr (h.exist l v logged)

theorem Seat.Dated.beside (h : d.Dated m₀) (rely : Rely d.context.owner d d') :
    (d.beside d').Dated m₀ where
  lower_le := h.lower_le
  upper_le := Nat.le_trans h.upper_le rely.clock
  logged := by
    rw [show (d.beside d').slotOf = d.slotOf from rely.slotOf]
    exact h.logged
  watched := by
    rw [show (d.beside d').slotOf = d.slotOf from rely.slotOf]
    exact h.watched
  time active q member := by
    obtain ⟨after, past, holds⟩ := h.time active q member
    refine ⟨after, Nat.le_trans past rely.clock, ?_⟩
    rw [show (d.beside d').content m₀ q.time = d.content m₀ q.time from rely.content past m₀]
    exact holds

theorem Seat.Awaited.beside {candidate : Nat} {next : AfterExtension}
    (past : candidate ≤ d.runtime.clock.now) (h : d.Awaited m₀ candidate next)
    (rely : Rely d.context.owner d d') : (d.beside d').Awaited m₀ candidate next := by
  have slots : (d.beside d').slotOf = d.slotOf := rely.slotOf
  cases next with
  | answer => exact h
  | loadHeld l kind =>
    simp only [Awaited]
    rw [slots]
    exact h
  | recheck l kind slot stamp v =>
    obtain ⟨active, slow, here, unheld, recent, has, value⟩ := h
    have same : (d.beside d').content m₀ stamp = d.content m₀ stamp :=
      rely.content (Nat.le_trans recent past) m₀
    refine ⟨active, slow, by rw [slots]; exact here, unheld, recent, (rely.shape.has l).mpr has, ?_⟩
    rw [same]
    exact value

theorem Seat.Waits.beside {candidate : Nat} {next : AfterExtension} (h : d.Waits m₀ candidate next)
    (rely : Rely d.context.owner d d') : (d.beside d').Waits m₀ candidate next where
  grows := h.grows
  past := Nat.le_trans h.past rely.clock
  consistent active regular q member := by
    rw [show (d.beside d').content m₀ candidate = d.content m₀ candidate from rely.content h.past m₀]
    exact h.consistent active regular q member
  awaited := h.awaited.beside h.past rely

theorem Seat.Backed.beside {q : Reading} (h : d.Backed m₀ q) (own : d.Owning) (dated : d.Dated m₀)
    (ledger : Ledger m₀ d.runtime d.commits) (rely : Rely d.context.owner d d') :
    (d.beside d').Backed m₀ q := by
  have slots : (d.beside d').slotOf = d.slotOf := rely.slotOf
  rcases h with ⟨e, member, here, holds⟩ | ⟨stamp, held, holds⟩
  -- What was seen lies in the past, where later commits change nothing.
  · have past := Nat.le_trans (dated.logged e member).observed dated.upper_le
    have same : (d.beside d').content m₀ e.observed = d.content m₀ e.observed := rely.content past m₀
    refine Or.inl ⟨e, member, here, ?_⟩
    rw [same]
    exact holds
  · have past : stamp ≤ d.runtime.clock.now := own.remembered _ _ held ▸ ledger.version_le_now _
    have same : (d.beside d').content m₀ stamp = d.content m₀ stamp := rely.content past m₀
    refine Or.inr ⟨stamp, ?_, ?_⟩
    · rw [slots]
      exact held
    · rw [same]
      exact holds

theorem Seat.Snapshot.beside (s : d.Snapshot m₀) (h : Sound allowed m₀ d)
    (rely : Rely d.context.owner d d') : (d.beside d').Snapshot m₀ where
  window := s.window
  consistent q member := by
    -- The bound is a value that the clock has had, so memory at the bound is settled.
    have same : (d.beside d').content m₀ d.context.upper = d.content m₀ d.context.upper :=
      rely.content h.dated.upper_le m₀
    show q.HoldsIn ((d.beside d').content m₀ d.context.upper)
    rw [same]
    exact s.consistent q member
  backed q member := (s.backed q member).beside h.owning h.dated h.ledger rely
  told := s.told

theorem Seat.Chained.le_upper {k : Nat} {time : Nat → Nat} (h : d.Chained m₀ k time) (i : Nat) :
    time i ≤ d.context.upper := by
  have later := h.mono i (max i d.taken.length) (Nat.le_max_left ..)
  rw [h.next _ (Nat.le_max_right ..)] at later
  exact later

theorem Seat.Chained.beside {k : Nat} {time : Nat → Nat} (h : d.Chained m₀ k time)
    (dated : d.Dated m₀) (rely : Rely d.context.owner d d') : (d.beside d').Chained m₀ k time where
  within := h.within
  mono := h.mono
  next := h.next
  holds i q here j first last := by
    have same : (d.beside d').content m₀ (time j) = d.content m₀ (time j) :=
      rely.content (Nat.le_trans (h.le_upper j) dated.upper_le) m₀
    rw [same]
    exact h.holds i q here j first last

theorem Seat.Watching.beside (w : d.Watching m₀) (dated : d.Dated m₀)
    (rely : Rely d.context.owner d d') : (d.beside d').Watching m₀ where
  reads := w.reads
  story := w.story
  watched := by
    -- The entries are needed as members of the window, to know that their versions lie in the past.
    have members := (List.forall₂_and_left _ _).mpr ⟨fun _ member => member, w.watched⟩
    refine members.imp ?_
    rintro e q ⟨member, watches⟩
    have past := Nat.le_trans (dated.watched e member).observed dated.upper_le
    have same : (d.beside d').content m₀ e.observed = d.content m₀ e.observed := rely.content past m₀
    refine ⟨watches.1, ?_⟩
    rw [same]
    exact watches.2
  chained unextended := by
    obtain ⟨time, chained⟩ := w.chained unextended
    exact ⟨time, chained.beside dated rely⟩

theorem Seat.Guarding.beside (g : d.Guarding m₀) (h : Sound allowed m₀ d)
    (rely : Rely d.context.owner d d') : (d.beside d').Guarding m₀ := by
  rcases g with covered | broken | abort
  · exact Or.inl ⟨covered.window, covered.written, covered.told, fun q member =>
      (covered.backed q member).beside h.owning h.dated h.ledger rely⟩
  · exact Or.inr (Or.inl broken)
  · exact Or.inr (Or.inr abort)

/-- A context stays sound while others move, if the shared part of the invariant is kept. -/
theorem Sound.beside (h : Sound allowed m₀ d) (rely : Rely d.context.owner d d')
    (ledger : Ledger m₀ d'.runtime d'.commits) (limit : d'.runtime.clock.now < lockBit)
    (annals : Annals allowed m₀ d'.runtime.clock.now d'.commits d'.readOnly) :
    Sound allowed m₀ (d.beside d') where
  ledger := ledger
  limit := limit
  annals := annals
  owning := h.owning.beside rely
  dated := h.dated.beside rely
  room := h.room
  waits candidate next standing := (h.waits candidate next standing).beside rely
  may := h.may
  snapshot active regular := (h.snapshot active regular).beside h rely
  watching active elastic nothing := (h.watching active elastic nothing).beside h.dated rely
  guarding active elastic wrote := (h.guarding active elastic wrote).beside h rely

end

end TransactionalMemory
