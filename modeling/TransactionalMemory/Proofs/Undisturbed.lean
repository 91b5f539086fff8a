import TransactionalMemory.Proofs.Seclusion

/-! # An attempt that nobody disturbs

While nobody else acts and nobody else holds a slot, an attempt has all slots to itself
(`Scope.Undisturbed`), so it is the plain execution of its accesses on memory as it is.  A commit then finds
the clock where it was at the start, and has nothing to check.
-/

namespace TransactionalMemory

namespace Scope

/-- The attempt has not been disturbed since it began: it is as if its accesses so far had gone to memory
    directly, which would have the given words now. -/
structure Undisturbed (s : Scope) (o : Outset) (words : Words) (wrote : Bool) : Prop where
  holding : s.Holding
  active : s.context.phase = .active
  small : o.clock.now < lockBit - 1
  memory : s.runtime.memory = o.memory
  clock : s.runtime.clock = o.clock
  mode : s.context.mode = o.mode
  tally : s.context.tally = o.tally
  lower : s.context.lower = o.clock.now
  upper : s.context.upper = o.clock.now
  alone : s.runtime.table.FreeFor s.context.owner
  free : ∀ slot stamp, s.runtime.table.word slot = .free stamp → stamp ≤ o.clock.now
  remembered : ∀ slot stamp, s.context.writes.stamp? slot = some stamp → stamp ≤ o.clock.now
  window : ∀ e ∈ s.context.window.entries, e.slot < s.runtime.table.size ∧
    e.Current s.runtime.table s.context.owner s.context.writes
  exist : ∀ e ∈ s.context.writes.entries, o.memory.Has e.location
  words : overlay s.context.writes.entries o.memory.words = words
  wrote : s.context.writes.isEmpty = !wrote

namespace Undisturbed

variable {s s' : Scope} {o : Outset} {words words' : Words} {wrote wrote' : Bool} {l : Location} {kind : Kind}
  {v : Value}

theorem secluded (u : s.Undisturbed o words wrote) : s.Secluded (fun _ => True) o words wrote where
  holding := u.holding
  active := u.active
  small := by
    have small := u.small
    omega
  shape := by rw [u.memory]; exact fun _ => rfl
  memory l _ := by rw [u.memory]
  mode := u.mode
  tally := u.tally
  lower := by rw [u.lower, u.clock]
  upper := u.upper.ge
  alone slot inside _ := u.alone slot inside
  free slot stamp _ := u.free slot stamp
  remembered slot stamp held := ⟨trivial, u.remembered slot stamp held⟩
  window e member :=
    have ⟨inside, current⟩ := u.window e member
    ⟨inside, trivial, current⟩
  exist := u.exist
  words := u.words
  wrote := u.wrote

theorem of_secluded (u : s.Secluded (fun _ => True) o words wrote) (small : o.clock.now < lockBit - 1)
    (memory : s.runtime.memory = o.memory) (clock : s.runtime.clock = o.clock)
    (lower : s.context.lower = o.clock.now) (upper : s.context.upper = o.clock.now) :
    s.Undisturbed o words wrote where
  holding := u.holding
  active := u.active
  small := small
  memory := memory
  clock := clock
  mode := u.mode
  tally := u.tally
  lower := lower
  upper := upper
  alone slot inside := u.alone slot inside trivial
  free slot stamp := u.free slot stamp trivial
  remembered slot stamp held := (u.remembered slot stamp held).2
  window e member :=
    have ⟨inside, _, current⟩ := u.window e member
    ⟨inside, current⟩
  exist := u.exist
  words := u.words
  wrote := u.wrote

/-- An access of an attempt that has all slots to itself does not disturb it. -/
theorem accessed (u : s.Undisturbed o words wrote) (u' : s'.Secluded (fun _ => True) o words' wrote')
    (a : s.Accessed (fun _ => True) s') : s'.Undisturbed o words' wrote' :=
  of_secluded u' u.small (a.memory.trans u.memory) (a.clock.trans u.clock) (a.lower.trans u.lower)
    (a.upper.trans u.upper)

theorem load (u : s.Undisturbed o words wrote) (has : o.memory.Has l) : ∃ s',
    s.load l kind = (.answered (.value (Value.decode (words l) kind)), s') ∧ s'.Undisturbed o words wrote := by
  obtain ⟨s', answered, u', a⟩ := u.secluded.load trivial has
  exact ⟨s', answered, u.accessed u' a⟩

theorem read (u : s.Undisturbed o words wrote) (has : o.memory.Has l) : ∃ s',
    s.read l kind = (.answered (.value (Value.decode (words l) kind)), s') ∧ s'.Undisturbed o words wrote := by
  obtain ⟨s', answered, u', a⟩ := u.secluded.read trivial has
  exact ⟨s', answered, u.accessed u' a⟩

theorem write (u : s.Undisturbed o words wrote) (has : o.memory.Has l) (v : Value) : ∃ s',
    s.write l v = (.answered .done, s') ∧ s'.Undisturbed o (words.put l v.encode) true := by
  obtain ⟨s', answered, u', a⟩ := u.secluded.write trivial has v
  exact ⟨s', answered, u.accessed u' a⟩

/-- An attempt that starts while nobody else holds a slot is undisturbed. -/
theorem of_start (h : s.Holding) (small : s.runtime.clock.now < lockBit - 1)
    (alone : s.runtime.table.FreeFor s.context.owner)
    (free : ∀ slot stamp, s.runtime.table.word slot = .free stamp → stamp ≤ s.runtime.clock.now)
    (remembered : ∀ slot stamp, s.context.writes.stamp? slot = some stamp → stamp ≤ s.runtime.clock.now)
    (block : Nat) (mode : Mode) : ∃ s', s.start block mode = (.ok (), s') ∧
      s'.Undisturbed ⟨s.runtime.memory, s.runtime.clock, mode, s.context.tally⟩ s.runtime.memory.words
        false := by
  obtain ⟨s', started, u, begun⟩ := Secluded.of_start (fun _ => True) h (m := s.runtime.memory)
    (c := s.runtime.clock) (by omega) (Nat.le_refl _) (fun _ => rfl) (fun _ _ => rfl)
    (fun slot inside _ => alone slot inside) (fun slot stamp _ => free slot stamp)
    (fun slot stamp held => ⟨trivial, remembered slot stamp held⟩) block mode
  exact ⟨s', started, .of_secluded u small begun.memory begun.clock begun.lower begun.upper⟩

/-- A commit of an attempt that is undisturbed stores its writes, and it answers so unless the commit cannot
    be counted. -/
theorem commit (u : s.Undisturbed o words wrote) : ∃ s',
    s.commit .commit =
      (match o.tally.countCommit o.mode (!wrote) with
        | .ok _ => .answered (.verdict true)
        | .error f => .faulted f, s') ∧
      s'.runtime.memory.words = words ∧ o.memory.SameShape s'.runtime.memory ∧
      s'.runtime.clock.now = o.clock.now + wrote.toNat := by
  have small : s.runtime.clock.now < lockBit - 1 := by
    rw [u.clock]
    exact u.small
  have lower : s.context.lower = s.runtime.clock.now := by rw [u.lower, u.clock]
  obtain ⟨s', answered, stored, now, confined⟩ := u.secluded.commit (fun _ => small) (Or.inl lower)
  refine ⟨s', answered, ?_, ?_, ?_⟩
  · rw [stored]
    exact funext fun l => (u.secluded.overlay_eq l).1 trivial
  · rw [← u.memory]
    exact confined.shape
  · rw [now, u.clock]

end Undisturbed

end Scope

end TransactionalMemory
