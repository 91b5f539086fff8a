import TransactionalMemory.Proofs.RegularMode
import TransactionalMemory.Proofs.Windows

/-! # Moves of an elastic attempt

Before its first write an elastic attempt has its `k` most recent reads in the window.  Each of them is
what memory held at the bound: a new read goes into the window only under a stamp up to the bound, and
the bound slides to the clock only when the whole window is current.  A read that leaves the window is
not looked at again, and need not hold at later values of the bound.

The first write moves the window to the read log, where it stays backed as the reads of a regular
attempt do.
-/

namespace TransactionalMemory

variable {allowed : Mode → Prop} {m₀ : Memory} {d d' : Seat}

/-! ## Before the first write -/

theorem Sound.latest_now (h : Sound allowed m₀ d) (w : d.Watching m₀) (current : d.WindowCurrent)
    {q : Reading} (member : q ∈ latest d.context.window.capacity d.taken) :
    q.HoldsIn d.runtime.memory.words := by
  -- Every recent read has its entry in the window, and the check has passed all of them.
  obtain ⟨e, memberE, watches⟩ := exists_of_mem_right w.watched member
  exact h.holds_now_of_entry (h.dated.watched e memberE) (current_of_allCurrent current e memberE) watches

namespace Seat

variable {k : Nat} {time : Nat → Nat}

theorem Chained.start (accesses : d.attempt.accesses = []) :
    d.Chained m₀ k fun _ => d.context.upper := by
  have none : d.taken = [] := by rw [taken, accesses]; rfl
  refine ⟨?_, fun _ _ _ => Nat.le_refl _, fun _ _ => rfl, ?_⟩
  · intro i q here
    rw [none] at here
    cases here
  · intro i q here
    rw [none] at here
    cases here

/-- The times of the first `n` reads, and the clock's value for the others. -/
def timesUntil (n : Nat) (time : Nat → Nat) (now : Nat) (i : Nat) : Nat := if i < n then time i else now

theorem Chained.slide (c : d.Chained m₀ k time) (dated : d.Dated m₀)
    (now : ∀ q ∈ latest k d.taken, q.HoldsIn (d.content m₀ d.runtime.clock.now)) :
    (d.withContext { d.context with upper := d.runtime.clock.now }).Chained m₀ k
      (timesUntil d.taken.length time d.runtime.clock.now) := by
  have past : ∀ i, time i ≤ d.runtime.clock.now := fun i =>
    Nat.le_trans (c.le_upper i) dated.upper_le
  have before : ∀ i < d.taken.length,
      timesUntil d.taken.length time d.runtime.clock.now i = time i := fun i inside => if_pos inside
  have after : ∀ i, d.taken.length ≤ i →
      timesUntil d.taken.length time d.runtime.clock.now i = d.runtime.clock.now :=
    fun i outside => if_neg (Nat.not_lt.mpr outside)
  refine ⟨?_, ?_, after, ?_⟩
  · intro i q here
    obtain ⟨inside, _⟩ := List.getElem?_eq_some_iff.mp here
    rw [before i inside]
    exact c.within i q here
  · intro i j le
    by_cases inside : j < d.taken.length
    · rw [before i (Nat.lt_of_le_of_lt le inside), before j inside]
      exact c.mono i j le
    · rw [after j (Nat.not_lt.mp inside), timesUntil]
      split
      · exact past i
      · exact Nat.le_refl _
  · intro i q here j first last
    by_cases inside : j < d.taken.length
    · rw [before j inside]
      exact c.holds i q here j first last
    · rw [after j (Nat.not_lt.mp inside)]
      exact now q (mem_latest here (Nat.le_trans (Nat.not_lt.mp inside) last))

theorem Chained.read (c : d.Chained m₀ k time) (dated : d.Dated m₀) (context : Context)
    (lower : context.lower = d.context.lower) (upper : context.upper = d.context.upper) {q : Reading}
    (source : q.source ≠ .buffered) (now : q.time = d.runtime.clock.now)
    (holds : q.HoldsIn (d.content m₀ d.context.upper)) :
    ((d.withContext context).did (.read q)).Chained m₀ k time := by
  have reads : ((d.withContext context).did (.read q)).taken = d.taken ++ [q] := taken_read _ source
  -- A read is one of those before, or the new one, whose time is the bound.
  have here_cases : ∀ i r, (d.taken ++ [q])[i]? = some r →
      d.taken[i]? = some r ∨ d.taken.length ≤ i ∧ r = q := by
    intro i r here
    by_cases inside : i < d.taken.length
    · rw [List.getElem?_append_left inside] at here
      exact Or.inl here
    · rw [List.getElem?_append_right (Nat.not_lt.mp inside)] at here
      exact Or.inr ⟨Nat.not_lt.mp inside,
        (List.mem_singleton.mp (List.mem_of_getElem? here))⟩
  refine ⟨?_, c.mono, ?_, ?_⟩
  · intro i r here
    rw [reads] at here
    show context.lower ≤ time i ∧ time i ≤ r.time
    rw [lower]
    -- The new read takes the bound as its time, which lies between the lower bound and now.
    rcases here_cases i r here with before | ⟨after, rfl⟩
    · exact c.within i r before
    · rw [c.next i after, now]
      exact ⟨dated.lower_le, dated.upper_le⟩
  · intro i after
    rw [reads, List.length_append, List.length_singleton] at after
    show time i = context.upper
    rw [upper]
    exact c.next i (by omega)
  · intro i r here j first last
    rw [reads] at here
    rcases here_cases i r here with before | ⟨after, rfl⟩
    · exact c.holds i r before j first last
    · rw [c.next j (Nat.le_trans after first)]
      exact holds

end Seat

theorem RedoLog.Appended.not_isEmpty {log log' : RedoLog} {slotOf : Location → Nat} {l : Location}
    {v : Value} {stamp : Option Nat} (h : Appended log log' slotOf l v stamp) :
    log'.isEmpty = false := by
  cases empty : log'.isEmpty with
  | false => rfl
  | true =>
    have logged := h.value l
    rw [RedoLog.eq_empty empty, if_pos rfl] at logged
    cases logged

theorem Sound.watching_move (h : Sound allowed m₀ d) (move : Move allowed d d')
    (active : d'.context.phase = .active) (elastic : d'.context.mode = .elastic)
    (nothing : d'.context.writes.isEmpty = true) : d'.Watching m₀ := by
  have wf := h.owning.wellFormed
  cases move with
  | count now published tally conflict extended broken later small stillExtended =>
    have w := h.watching active elastic nothing
    refine ⟨w.reads, w.story, w.watched, ?_⟩
    intro unextended
    have before : d.attempt.extended = false := by
      cases was : d.attempt.extended with
      | false => rfl
      | true => exact absurd (stillExtended was) (by simpa using unextended)
    obtain ⟨time, c⟩ := w.chained before
    exact ⟨time, c.within, c.mono, c.next, c.holds⟩
  | adopt candidate next waiting =>
    have w := h.watching active elastic nothing
    refine ⟨w.reads, w.story, w.watched, ?_⟩
    intro unextended
    -- Before the first write, only the client's own call moves the bound this way.
    have awaited := (h.waits candidate next waiting).awaited
    cases next with
    | answer =>
      have extended : d.attempt.extended = true := awaited
      cases extended.symm.trans unextended
    | loadHeld l kind =>
      obtain ⟨_, _, stamp, own, _⟩ := awaited
      cases own.symm.trans (RedoLog.stamp?_of_isEmpty nothing _)
    | recheck l kind slot stamp v =>
      have fast : d.context.isFast = true := Context.isFast_iff.mpr ⟨elastic, nothing⟩
      rw [awaited.2.1] at fast
      cases fast
  | slide free fast current =>
    have w := h.watching active elastic nothing
    refine ⟨w.reads, w.story, w.watched, ?_⟩
    intro unextended
    obtain ⟨time, c⟩ := w.chained unextended
    exact ⟨_, c.slide h.dated fun q member => h.holds_at_clock.mpr (h.latest_now w current member)⟩
  | readOwn l kind v free logged =>
    have none := wf.value?_of_not_held (RedoLog.stamp?_of_isEmpty nothing (d.slotOf l))
    rw [none] at logged
    cases logged
  | readHeld l kind v stamp free held =>
    cases held.symm.trans (RedoLog.stamp?_of_isEmpty nothing _)
  | readFree l kind v stamp free slow =>
    have fast : d.context.isFast = true := Context.isFast_iff.mpr ⟨elastic, nothing⟩
    rw [slow] at fast
    cases fast
  | readFast l kind v stamp free fast unheld word recent loaded =>
    have w := h.watching active elastic nothing
    have source : (d.reading l kind v).source ≠ .buffered :=
      Seat.source_of_unlogged (wf.value?_of_not_held unheld)
    have watches : d.Watches m₀ ⟨l, d.slotOf l, stamp⟩ (d.reading l kind v) :=
      ⟨rfl, h.holds_of_free word loaded (Nat.le_refl _)⟩
    refine ⟨w.reads, ?_, ?_, ?_⟩
    · rw [Seat.taken_read _ source, List.map_append]
      exact congrArg (· ++ _) w.story
    · rw [Seat.taken_read _ source]
      show List.Forall₂ (d.Watches m₀) (d.context.window.push ⟨l, d.slotOf l, stamp⟩).entries
        (latest d.context.window.capacity (d.taken ++ [d.reading l kind v]))
      rw [latest_append_singleton h.room]
      refine forall₂_snoc ?_ watches
      rw [w.watched.length_eq]
      split
      · rw [← List.drop_one, ← List.drop_one]
        exact List.forall₂_drop 1 w.watched
      · exact w.watched
    · intro unextended
      obtain ⟨time, c⟩ := w.chained unextended
      exact ⟨time, c.read h.dated { d.context with window := d.context.window.push ⟨l, d.slotOf l, stamp⟩ }
        rfl rfl source rfl (h.holds_of_free word loaded recent)⟩
  | writeHeld l v writes free exist word logged =>
    exact absurd nothing (by simp [Seat.did, Seat.withContext, (wf.append logged).not_isEmpty])
  | writeFree l v stamp writes free active exist slow word logged =>
    exact absurd nothing
      (by simp [Seat.did, Seat.take, Seat.withLocks, (wf.append logged).not_isEmpty])
  | writeFirst l v stamp writes free active exist fast word logged =>
    exact absurd nothing (by simp [Seat.did, Seat.withContext, Seat.take, Seat.withLocks,
      Context.drainWindow, (wf.append logged).not_isEmpty])
  | writeStale l v stamp writes c free active exist word logged =>
    exact absurd nothing (by simp [Seat.take, Seat.withLocks, (wf.append logged).not_isEmpty])
  | begin block mode table free may back =>
    refine ⟨rfl, rfl, ?_, fun _ => ⟨_, .start rfl⟩⟩
    show List.Forall₂ _ [] (List.drop _ [])
    rw [List.drop_nil]
    exact .nil
  | abandon => cases active
  | commitReads => cases active
  | commitWrites => cases active
  | _ =>
    have w := h.watching active elastic nothing
    refine ⟨w.reads, w.story, w.watched, ?_⟩
    intro unextended
    obtain ⟨time, c⟩ := w.chained unextended
    exact ⟨time, c.within, c.mono, c.next, c.holds⟩

/-! ## From the first write on -/

theorem Seat.Covered.did {d₁ : Seat} (c : d.Covered m₀) (a : Access) (commits : d₁.commits = d.commits)
    (slots : d₁.slotOf = d.slotOf) (attempt : d₁.attempt = d.attempt)
    (window : d₁.context.window = d.context.window)
    (reads : ∀ e ∈ d.context.reads.entries, e ∈ d₁.context.reads.entries)
    (stamps : ∀ slot s, d.context.writes.stamp? slot = some s → d₁.context.writes.stamp? slot = some s)
    (told : Faithful (d.attempt.accesses ++ [a]) d₁.context.writes)
    (new : ∀ q ∈ fromMemory [a], d₁.Backed m₀ q) : (d₁.did a).Covered m₀ := by
  obtain ⟨w, member, write⟩ := c.written
  refine ⟨?_, ⟨w, ?_, write⟩, ?_, ?_⟩
  · show d₁.context.window.entries = []
    rw [window]
    exact c.window
  · show w ∈ d₁.attempt.accesses ++ [a]
    rw [attempt]
    exact List.mem_append_left _ member
  · show Faithful (d₁.attempt.accesses ++ [a]) d₁.context.writes
    rw [attempt]
    exact told
  · intro q member
    replace member : q ∈ guarded d₁.context.window.capacity (d₁.attempt.accesses ++ [a]) := member
    rw [attempt, window, guarded_append c.written] at member
    cases List.mem_append.mp member with
    | inl member => exact (c.backed q member).mono commits slots reads stamps
    | inr member => exact new q member

theorem Seat.Guarding.of_free (g : d.Guarding m₀) (free : d.pending = none) :
    d.Covered m₀ ∨ d.attempt.broken = true := by
  rcases g with covered | broken | abort
  · exact Or.inl covered
  · exact Or.inr broken
  · rw [free] at abort
    cases abort

/-- At its first write an elastic attempt puts its latest reads under watch for good. -/
theorem Seat.Watching.covered_first (w : d.Watching m₀) {l : Location} {v : Value} {writes : RedoLog}
    (told : Faithful (d.attempt.accesses ++ [.write l v]) writes) :
    (((d.take l writes).withContext (d.take l writes).context.drainWindow).did
      (.write l v)).Covered m₀ := by
  refine ⟨rfl, ⟨.write l v, List.mem_append_right _ (List.mem_singleton_self _), rfl⟩, told, ?_⟩
  intro q member
  replace member :
      q ∈ guarded d.context.window.capacity (d.attempt.accesses ++ [.write l v]) := member
  -- The reads that count at the first write are the latest ones, and these are in the window.
  rw [w.story, guarded_reads _ fun q => source_of_mem_fromMemory] at member
  obtain ⟨e, memberE, watches⟩ := exists_of_mem_right w.watched member
  exact Or.inl ⟨e, List.mem_append_right _ memberE, watches⟩

theorem Sound.guarding_move (h : Sound allowed m₀ d) (move : Move allowed d d')
    (active : d'.context.phase = .active) (elastic : d'.context.mode = .elastic)
    (wrote : d'.context.writes.isEmpty = false) : d'.Guarding m₀ := by
  have wf := h.owning.wellFormed
  cases move with
  | count now published tally conflict extended broken later small stillExtended stillBroken =>
    rcases h.guarding active elastic wrote with covered | was | abort
    · exact Or.inl ⟨covered.window, covered.written, covered.told, covered.backed⟩
    · exact Or.inr (Or.inl (stillBroken was))
    · exact Or.inr (Or.inr abort)
  | turn next noExtension steady =>
    rcases h.guarding active elastic wrote with covered | was | abort
    · exact Or.inl ⟨covered.window, covered.written, covered.told, covered.backed⟩
    · exact Or.inr (Or.inl was)
    · exact Or.inr ((steady active abort).symm)
  | suspend next free =>
    cases (h.guarding active elastic wrote).of_free free with
    | inl covered => exact Or.inl ⟨covered.window, covered.written, covered.told, covered.backed⟩
    | inr was => exact Or.inr (Or.inl was)
  | adopt candidate next waiting =>
    rcases h.guarding active elastic wrote with covered | was | abort
    · exact Or.inl ⟨covered.window, covered.written, covered.told, covered.backed⟩
    · exact Or.inr (Or.inl was)
    · rw [waiting] at abort
      cases abort
  | slide free fast =>
    cases wrote.symm.trans (Context.isFast_iff.mp fast).2
  | readOwn l kind v free logged =>
    refine ((h.guarding active elastic wrote).of_free free).imp ?_ Or.inl
    intro c
    refine c.did _ rfl rfl rfl rfl (fun _ e => e) (fun _ _ own => own)
      (c.told.read_own wf logged rfl (Seat.source_of_logged logged)) ?_
    intro q member
    rw [fromMemory_of_buffered (Seat.source_of_logged logged)] at member
    cases member
  | readHeld l kind v stamp free held unlogged recent loaded =>
    refine ((h.guarding active elastic wrote).of_free free).imp ?_ Or.inl
    intro c
    refine c.did _ rfl rfl rfl rfl (fun _ e => e) (fun _ _ own => own)
      (c.told.read_memory wf unlogged (Seat.source_of_unlogged unlogged)) ?_
    intro q member
    rw [fromMemory_of_not_buffered (Seat.source_of_unlogged unlogged)] at member
    rw [List.mem_singleton.mp member]
    exact h.backed_of_held held loaded
  | readFree l kind v stamp free slow unheld word recent loaded =>
    refine ((h.guarding active elastic wrote).of_free free).imp ?_ Or.inl
    intro c
    have unlogged := wf.value?_of_not_held unheld
    refine c.did _ rfl rfl rfl rfl (fun e member => List.mem_append_left _ member)
      (fun _ _ own => own) (c.told.read_memory wf unlogged (Seat.source_of_unlogged unlogged)) ?_
    intro q member
    rw [fromMemory_of_not_buffered (Seat.source_of_unlogged unlogged)] at member
    rw [List.mem_singleton.mp member]
    exact Or.inl ⟨⟨l, d.slotOf l, stamp⟩, List.mem_append_right _ (List.mem_singleton_self _), rfl,
      h.holds_of_free word loaded (Nat.le_refl _)⟩
  | readFast l kind v stamp free fast =>
    cases wrote.symm.trans (Context.isFast_iff.mp fast).2
  | writeHeld l v writes free exist word logged =>
    have before : d.context.writes.isEmpty = false := by
      cases nothing : d.context.writes.isEmpty with
      | false => rfl
      | true =>
        have listed := h.owning.listed _ word
        rw [RedoLog.owns, RedoLog.stamp?_of_isEmpty nothing] at listed
        cases listed
    refine ((h.guarding active elastic before).of_free free).imp ?_ Or.inl
    intro c
    exact c.did _ rfl rfl rfl rfl (fun _ e => e) (fun _ _ => (wf.append logged).stamp?_of_some)
      (c.told.write wf (wf.append logged)) fun q member => by cases member
  | writeFree l v stamp writes free active exist slow word logged =>
    have before : d.context.writes.isEmpty = false := by
      cases nothing : d.context.writes.isEmpty with
      | false => rfl
      | true => cases slow.symm.trans (Context.isFast_iff.mpr ⟨elastic, nothing⟩)
    refine ((h.guarding active elastic before).of_free free).imp ?_ Or.inl
    intro c
    exact c.did _ rfl rfl rfl rfl (fun _ e => e) (fun _ _ => (wf.append logged).stamp?_of_some)
      (c.told.write wf (wf.append logged)) fun q member => by cases member
  | writeFirst l v stamp writes free active exist fast word logged =>
    have nothing := (Context.isFast_iff.mp fast).2
    have w := h.watching active elastic nothing
    -- Until now the attempt has only read, so its log is empty and says as much.
    have told : Faithful d.attempt.accesses d.context.writes := by
      rw [w.story, RedoLog.eq_empty nothing]
      exact .of_reads fun q => source_of_mem_fromMemory
    exact Or.inl (w.covered_first (told.write wf (wf.append logged)))
  | writeStale => exact Or.inr (Or.inr trivial)
  | begin => cases wrote
  | abandon => cases active
  | commitReads => cases active
  | commitWrites => cases active

end TransactionalMemory
