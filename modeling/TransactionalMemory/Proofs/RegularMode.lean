import TransactionalMemory.Proofs.Readings

/-! # Moves of a regular attempt

Every read of a regular attempt is backed, so before the bound moves, the check of the logged reads
shows that all of them, those under the attempt's own slots too, are what memory holds then.  The
values that the attempt reads from its own log of writes follow from the log being faithful.

A first write under a slot may find that the slot was committed to after the attempt read under it.
The attempt is to be aborted then, and if the abort itself meets a fault, it stays doomed: the read is
never current again, so no commit gets past the check.
-/

namespace TransactionalMemory

variable {allowed : Mode → Prop} {m₀ : Memory} {d d' : Seat}

/-! ## Logs that are faithful -/

namespace Faithful

variable {accesses : List Access} {writes writes' : RedoLog} {slotOf : Location → Nat}

theorem start : Faithful [] {} := ⟨fun _ => rfl, fun _ _ => trivial⟩

theorem write (f : Faithful accesses writes) (wf : writes.WellFormed slotOf) {l : Location} {v : Value}
    {stamp : Option Nat} (appended : RedoLog.Appended writes writes' slotOf l v stamp) :
    Faithful (accesses ++ [.write l v]) writes' where
  effect m := by
    rw [execute_append, execute_write, f.effect m, RedoLog.overlay_append wf appended]
  replays m holds := by
    rw [replays_append_write]
    apply f.replays m
    rw [fromMemory_append, fromMemory_write, List.append_nil] at holds
    exact holds

theorem read_own (f : Faithful accesses writes) (wf : writes.WellFormed slotOf) {q : Reading} {v : Value}
    (logged : writes.value? (slotOf q.location) q.location = some v)
    (value : q.value = v.reinterpret q.kind) (source : q.source = .buffered) :
    Faithful (accesses ++ [.read q]) writes where
  effect m := by rw [execute_append, execute_read, f.effect m]
  replays m holds := by
    rw [replays_append_read]
    constructor
    · apply f.replays m
      rw [fromMemory_append, fromMemory_of_buffered source, List.append_nil] at holds
      exact holds
    · rw [Reading.HoldsIn, f.effect m, RedoLog.overlay_apply wf, logged, value,
        Value.reinterpret_eq_decode]

theorem read_memory (f : Faithful accesses writes) (wf : writes.WellFormed slotOf) {q : Reading}
    (unlogged : writes.value? (slotOf q.location) q.location = none) (source : q.source ≠ .buffered) :
    Faithful (accesses ++ [.read q]) writes where
  effect m := by rw [execute_append, execute_read, f.effect m]
  replays m holds := by
    rw [fromMemory_append, fromMemory_of_not_buffered source] at holds
    rw [replays_append_read]
    constructor
    · exact f.replays m fun r member => holds r (List.mem_append_left _ member)
    · have here := holds q (List.mem_append_right _ (List.mem_singleton_self q))
      rw [Reading.HoldsIn, f.effect m, RedoLog.overlay_apply wf, unlogged]
      exact here

theorem of_reads {reads : List Reading} (memory : ∀ q ∈ reads, q.source ≠ .buffered) :
    Faithful (reads.map .read) {} := by
  induction reads using List.reverseRecOn with
  | nil => exact .start
  | append_singleton reads q ih =>
    have before := ih fun r member => memory r (List.mem_append_left _ member)
    rw [List.map_append]
    exact before.read_memory (RedoLog.wellFormed_empty fun _ => 0) rfl
      (memory q (List.mem_append_right _ (List.mem_singleton_self q)))

end Faithful

/-! ## Reads that stay backed -/

theorem RedoLog.Appended.stamp?_of_some {log log' : RedoLog} {slotOf : Location → Nat} {l : Location}
    {v : Value} {stamp : Option Nat} (h : Appended log log' slotOf l v stamp) {slot s : Nat}
    (own : log.stamp? slot = some s) : log'.stamp? slot = some s := by
  rw [h.stamps slot, if_neg]
  · exact own
  · rintro ⟨_, none⟩
    rw [none] at own
    cases own

theorem Seat.Backed.mono {q : Reading} (h : d.Backed m₀ q) (commits : d'.commits = d.commits)
    (slots : d'.slotOf = d.slotOf)
    (reads : ∀ e ∈ d.context.reads.entries, e ∈ d'.context.reads.entries)
    (stamps : ∀ slot s, d.context.writes.stamp? slot = some s →
      d'.context.writes.stamp? slot = some s) : d'.Backed m₀ q := by
  simp only [Backed, Seat.content]
  rw [slots, commits]
  rcases h with ⟨e, member, watches⟩ | ⟨s, own, holds⟩
  · exact Or.inl ⟨e, reads e member, watches⟩
  · exact Or.inr ⟨s, stamps _ s own, holds⟩

theorem Seat.Doomed.mono (h : d.Doomed) (lower : d'.context.lower = d.context.lower)
    (reads : ∀ e ∈ d.context.reads.entries, e ∈ d'.context.reads.entries)
    (stamps : ∀ slot s, d.context.writes.stamp? slot = some s →
      d'.context.writes.stamp? slot = some s) : d'.Doomed := by
  obtain ⟨e, member, s, own, overtaken, later⟩ := h
  exact ⟨e, reads e member, s, stamps _ s own, overtaken, by rw [lower]; exact later⟩

namespace Sound

variable {l : Location} {kind : Kind} {v : Value} {stamp : Nat}

theorem backed_of_held (h : Sound allowed m₀ d) (held : d.context.writes.stamp? (d.slotOf l) = some stamp)
    (loaded : d.runtime.memory.peek l kind = .ok v) : d.Backed m₀ (d.reading l kind v) := by
  -- The slot was taken under its version, and since then nobody else can have written under it.
  refine Or.inr ⟨stamp, held, h.holds_at_of_version ?_ (Memory.peek_eq_ok_iff.mp loaded).2⟩
  exact Nat.le_of_eq (h.owning.remembered _ _ held)

theorem holds_of_free (h : Sound allowed m₀ d) (word : d.runtime.table.word (d.slotOf l) = .free stamp)
    (loaded : d.runtime.memory.peek l kind = .ok v) {time : Nat} (recent : stamp ≤ time) :
    (d.reading l kind v).HoldsIn (d.content m₀ time) := by
  -- The stamp of a free slot is its version, so the field has not changed from there on.
  refine h.holds_at_of_version ?_ (Memory.peek_eq_ok_iff.mp loaded).2
  exact Nat.le_trans (Nat.le_of_eq (h.ledger.free _ _ word)) recent

end Sound

/-! ## Regular attempts -/

theorem Seat.Snapshot.read (s : d.Snapshot m₀) (wf : d.context.writes.WellFormed d.slotOf)
    (reads : ReadLog) (kept : ∀ e ∈ d.context.reads.entries, e ∈ reads.entries) {l : Location}
    {kind : Kind} {v : Value} (unlogged : d.context.writes.value? (d.slotOf l) l = none)
    (consistent : (d.reading l kind v).HoldsIn (d.content m₀ d.context.upper))
    (backed : (d.withContext { d.context with reads }).Backed m₀ (d.reading l kind v)) :
    ((d.withContext { d.context with reads }).did (.read (d.reading l kind v))).Snapshot m₀ := by
  have source := Seat.source_of_unlogged unlogged
  refine ⟨s.window, ?_, ?_, ?_⟩
  · intro q member
    rw [Seat.taken_read _ source] at member
    cases List.mem_append.mp member with
    | inl member => exact s.consistent q member
    | inr single =>
      rw [List.mem_singleton.mp single]
      exact consistent
  · intro q member
    rw [Seat.taken_read _ source] at member
    cases List.mem_append.mp member with
    | inl member => exact (s.backed q member).mono rfl rfl kept fun _ _ own => own
    | inr single =>
      rw [List.mem_singleton.mp single]
      exact backed
  · exact s.told.imp (fun f => f.read_memory wf unlogged source)
      fun doomed => doomed.mono rfl kept fun _ _ own => own

theorem Seat.Snapshot.write (s : d.Snapshot m₀) (wf : d.context.writes.WellFormed d.slotOf)
    {writes : RedoLog} {l : Location} {v : Value} {stamp : Option Nat}
    (appended : RedoLog.Appended d.context.writes writes d.slotOf l v stamp) :
    ((d.withContext { d.context with writes }).did (.write l v)).Snapshot m₀ := by
  refine ⟨s.window, ?_, ?_, ?_⟩
  · intro q member
    rw [Seat.taken_write] at member
    exact s.consistent q member
  · intro q member
    rw [Seat.taken_write] at member
    exact (s.backed q member).mono rfl rfl (fun _ e => e) fun _ _ own => appended.stamp?_of_some own
  · exact s.told.imp (fun f => f.write wf appended)
      fun doomed => doomed.mono rfl (fun _ e => e) fun _ _ own => appended.stamp?_of_some own

theorem Sound.snapshot_move (h : Sound allowed m₀ d) (move : Move allowed d d')
    (active : d'.context.phase = .active) (regular : d'.context.mode ≠ .elastic) : d'.Snapshot m₀ := by
  have wf := h.owning.wellFormed
  have notFast : ¬ (d.context.isFast = true ∧ d.context.mode ≠ .elastic) := fun both =>
    both.2 (Context.isFast_iff.mp both.1).1
  cases move with
  | adopt candidate next waiting =>
    have s := h.snapshot active regular
    -- The check before the call stood still has settled the reads at the candidate, whatever came since.
    exact ⟨s.window, (h.waits candidate next waiting).consistent active regular, s.backed, s.told⟩
  | slide free fast => exact absurd ⟨fast, regular⟩ notFast
  | readOwn l kind v free logged =>
    have s := h.snapshot active regular
    have source : (d.reading l kind (v.reinterpret kind)).source = .buffered :=
      Seat.source_of_logged logged
    refine ⟨s.window, ?_, ?_, s.told.imp (fun f => f.read_own wf logged rfl source) id⟩
    · rw [Seat.taken_own d source]
      exact s.consistent
    · rw [Seat.taken_own d source]
      exact s.backed
  | readHeld l kind v stamp free held unlogged recent loaded =>
    have s := h.snapshot active regular
    -- The slot was taken under a version up to the bound, so the field is the one of the snapshot.
    have version := Nat.le_of_eq (h.owning.remembered _ _ held)
    have consistent : (d.reading l kind v).HoldsIn (d.content m₀ d.context.upper) :=
      h.holds_at_of_version (Nat.le_trans version recent) (Memory.peek_eq_ok_iff.mp loaded).2
    -- The read is not logged: the slot that is held stands in for an entry.
    have s' := s.read wf d.context.reads (fun _ e => e) unlogged consistent
      (h.backed_of_held held loaded)
    exact ⟨s'.window, s'.consistent, s'.backed, s'.told⟩
  | readFree l kind v stamp free slow unheld word recent loaded =>
    have s := h.snapshot active regular
    refine s.read wf _ (fun e member => List.mem_append_left _ member) (wf.value?_of_not_held unheld)
      (h.holds_of_free word loaded recent)
      (Or.inl ⟨⟨l, d.slotOf l, stamp⟩, ?_, rfl, h.holds_of_free word loaded (Nat.le_refl _)⟩)
    exact List.mem_append_right _ (List.mem_singleton_self _)
  | readFast l kind v stamp free fast => exact absurd ⟨fast, regular⟩ notFast
  | writeHeld l v writes free exist word logged =>
    exact (h.snapshot active regular).write wf (wf.append logged)
  | writeFree l v stamp writes free active exist slow word logged =>
    have s := (h.snapshot active regular).write wf (wf.append logged)
    exact ⟨s.window, s.consistent, s.backed, s.told⟩
  | writeFirst l v stamp writes free active exist fast => exact absurd ⟨fast, regular⟩ notFast
  | writeStale l v stamp writes c free active exist word logged stale =>
    have s := h.snapshot active regular
    have appended := wf.append logged
    refine ⟨s.window, s.consistent, ?_, Or.inr ?_⟩
    · intro q member
      exact (s.backed q member).mono rfl rfl (fun _ e => e) fun _ _ own => appended.stamp?_of_some own
    · -- The read that was overtaken is in the read log, since a regular attempt has no window.
      obtain ⟨late, read⟩ := stale.resolve_left regular
      simp only [Context.hasRead, Window.contains, s.window, List.any_nil, Bool.false_or,
        ReadLog.contains, List.any_eq_true, decide_eq_true_eq] at read
      obtain ⟨e, member, here⟩ := read
      have placed := h.dated.logged e member
      have unheld : d.context.writes.stamp? (d.slotOf l) = none :=
        h.holding.stamp?_of_not_held fun held => LockWord.noConfusion (word.symm.trans held)
      refine ⟨e, member, stamp, ?_, Nat.lt_of_le_of_lt placed.observed late,
        Nat.lt_of_le_of_lt h.dated.lower_le late⟩
      rw [placed.slot, here]
      show writes.stamp? (d.slotOf l) = some stamp
      rw [appended.stamps, if_pos ⟨rfl, unheld⟩]
  | begin block mode table free may back =>
    exact ⟨rfl, fun q member => (by cases member), fun q member => (by cases member), Or.inl .start⟩
  | abandon => cases active
  | commitReads => cases active
  | commitWrites => cases active
  | _ =>
    have s := h.snapshot active regular
    exact ⟨s.window, s.consistent, s.backed, s.told⟩

end TransactionalMemory
