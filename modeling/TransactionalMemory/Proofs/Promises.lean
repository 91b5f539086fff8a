import TransactionalMemory.Proofs.Bookkeeping
import TransactionalMemory.Proofs.Windows

/-! # Reads that a mode promises to watch

A regular attempt watches every read of a slot that it does not hold.  An elastic one watches its last reads, as many
as the window has room for, until it writes; then it watches these for good, and every read after that.  So the reads
under watch are a function of the mode and of the accesses (`loggedReads`, `watchedReads`), and an attempt keeps the
promise if its two logs hold them in order (`Context.Promised`).  What each access does to the logs keeps the promise.
-/

namespace TransactionalMemory

/-! ## Promised reads -/

/-- The read behind an access. -/
def Access.reading? : Access → Option Reading
  | read q => some q
  | write .. => none

/-- The read behind an access, if the slot was not among those of the attempt when it was made. -/
def Access.logged? : Access → Option Reading
  | read q => if q.source = .free then some q else none
  | write .. => none

/-- All reads. -/
def readings (accesses : List Access) : List Reading := accesses.filterMap Access.reading?

/-- The reads of slots that the attempt did not hold. -/
def loggedReads (accesses : List Access) : List Reading := accesses.filterMap Access.logged?

/-- The reads that an elastic attempt with a window of `k` has under watch once it has written. -/
def watchedReads (k : Nat) (accesses : List Access) : List Reading :=
  latest k (readings (accesses.takeWhile Access.isRead)) ++ loggedReads (accesses.dropWhile Access.isRead)

theorem readings_append (accesses rest : List Access) :
    readings (accesses ++ rest) = readings accesses ++ readings rest := List.filterMap_append

theorem loggedReads_append (accesses rest : List Access) :
    loggedReads (accesses ++ rest) = loggedReads accesses ++ loggedReads rest := List.filterMap_append

theorem loggedReads_of_free {q : Reading} (free : q.source = .free) : loggedReads [.read q] = [q] := by
  simp [loggedReads, Access.logged?, free]

theorem loggedReads_of_not_free {q : Reading} (other : q.source ≠ .free) : loggedReads [.read q] = [] := by
  simp [loggedReads, Access.logged?, other]

theorem watchedReads_append {k : Nat} {accesses : List Access} (written : ∃ a ∈ accesses, a.isRead = false)
    (rest : List Access) : watchedReads k (accesses ++ rest) = watchedReads k accesses ++ loggedReads rest := by
  obtain ⟨before, after⟩ := split_append_of_written written rest
  rw [watchedReads, watchedReads, before, after, loggedReads_append, List.append_assoc]

theorem watchedReads_first {k : Nat} {accesses : List Access} (reads : ∀ a ∈ accesses, a.isRead = true)
    (l : Location) (v : Value) : watchedReads k (accesses ++ [.write l v]) = latest k (readings accesses) := by
  rw [watchedReads, List.takeWhile_append_of_pos reads, List.dropWhile_append_of_pos reads]
  simp [List.takeWhile, List.dropWhile, Access.isRead, loggedReads, Access.logged?]

/-! ## Logs that hold them -/

/-- The logs of reads hold the promised reads, entry by entry: what an entry has to do with its read is left open. -/
structure Context.Promised (stands : ReadEntry → Reading → Prop) (k : Nat) (c : Context) (accesses : List Access) :
    Prop where
  unwritten : c.isFast = true → ∀ a ∈ accesses, a.isRead = true
  written : c.mode.isElastic = true → c.isFast = false → ∃ a ∈ accesses, a.isRead = false
  fast : c.isFast = true →
    c.reads.entries = [] ∧ List.Forall₂ stands c.window.entries (latest k (readings accesses))
  slow : c.isFast = false → c.window.entries = [] ∧ List.Forall₂ stands c.reads.entries
    (if c.mode.isElastic then watchedReads k accesses else loggedReads accesses)

namespace Context.Promised

variable {stands stands' : ReadEntry → Reading → Prop} {k : Nat} {c c' : Context} {accesses : List Access}
  {q : Reading} {e : ReadEntry} {l : Location} {v : Value} {writes : RedoLog}

theorem mono (h : c.Promised stands k accesses) (later : ∀ e q, stands e q → stands' e q) :
    c.Promised stands' k accesses where
  unwritten := h.unwritten
  written := h.written
  fast fast := ⟨(h.fast fast).1, (h.fast fast).2.imp later⟩
  slow slow := ⟨(h.slow slow).1, (h.slow slow).2.imp later⟩

theorem of_logs (h : c.Promised stands k accesses) (mode : c'.mode = c.mode) (writes : c'.writes = c.writes)
    (reads : c'.reads = c.reads) (window : c'.window = c.window) : c'.Promised stands k accesses := by
  have fast : c'.isFast = c.isFast := by rw [isFast, isFast, mode, writes]
  refine ⟨?_, ?_, ?_, ?_⟩
  all_goals
    rw [fast]
    try rw [mode]
    try rw [reads, window]
  · exact h.unwritten
  · exact h.written
  · exact h.fast
  · exact h.slow

/-- An attempt that has just begun. -/
theorem blank (none : c.writes.isEmpty = true) (reads : c.reads = {}) (window : c.window.entries = []) :
    c.Promised stands k [] where
  unwritten _ := nofun
  written elastic slow := by rw [isFast, none, elastic] at slow; cases slow
  fast _ := by
    rw [reads, window]
    exact ⟨rfl, by simp [readings, latest]⟩
  slow _ := by
    rw [reads, window]
    exact ⟨rfl, by split <;> simp [watchedReads, readings, loggedReads, latest]⟩

/-- The reads that a slow attempt has under watch, after some more accesses. -/
theorem slow_append (h : c.Promised stands k accesses) (slow : c.isFast = false) (rest : List Access) :
    (if c.mode.isElastic then watchedReads k (accesses ++ rest) else loggedReads (accesses ++ rest)) =
      (if c.mode.isElastic then watchedReads k accesses else loggedReads accesses) ++ loggedReads rest := by
  split
  · next elastic => exact watchedReads_append (h.written elastic slow) rest
  · exact loggedReads_append accesses rest

theorem written_append (h : c.Promised stands k accesses) (rest : List Access)
    (elastic : c.mode.isElastic = true) (slow : c.isFast = false) : ∃ a ∈ accesses ++ rest, a.isRead = false := by
  obtain ⟨a, member, write⟩ := h.written elastic slow
  exact ⟨a, List.mem_append_left _ member, write⟩

/-- One more access of an attempt that has written, or is not elastic, with what it adds to the read log. -/
theorem slow_access (h : c.Promised stands k accesses) (slow : c.isFast = false) {x : Access}
    (mode : c'.mode = c.mode) (slow' : c'.isFast = false) (window : c'.window.entries = c.window.entries)
    {entries : List ReadEntry} (reads : c'.reads.entries = c.reads.entries ++ entries)
    (added : List.Forall₂ stands entries (loggedReads [x])) : c'.Promised stands k (accesses ++ [x]) where
  unwritten fast := by rw [slow'] at fast; cases fast
  written elastic _ := h.written_append [x] (mode ▸ elastic) slow
  fast fast := by rw [slow'] at fast; cases fast
  slow _ := by
    obtain ⟨empty, before⟩ := h.slow slow
    refine ⟨window.trans empty, ?_⟩
    rw [mode, h.slow_append slow, reads]
    exact List.rel_append before added

/-- A read under a slot that the attempt holds is not logged. -/
theorem own (h : c.Promised stands k accesses) (slow : c.isFast = false) (other : q.source ≠ .free) :
    c.Promised stands k (accesses ++ [.read q]) := by
  refine h.slow_access slow rfl slow rfl (List.append_nil _).symm ?_
  rw [loggedReads_of_not_free other]
  exact .nil

theorem entry (h : c.Promised stands k accesses) (room : 0 < k) (capacity : c.window.capacity = k)
    (free : q.source = .free) (new : stands e q) : (c.logRead e).Promised stands k (accesses ++ [.read q]) := by
  cases fast : c.isFast with
  | false =>
    have logged : c.logRead e = { c with reads := c.reads.push e } := by
      rw [logRead, fast]
      exact if_neg Bool.false_ne_true
    rw [logged]
    refine h.slow_access fast rfl fast rfl rfl ?_
    rw [loggedReads_of_free free]
    exact .cons new .nil
  | true =>
    have logged : c.logRead e = { c with window := c.window.push e } := by
      rw [logRead, fast]
      exact if_pos rfl
    obtain ⟨empty, before⟩ := h.fast fast
    rw [logged]
    refine ⟨fun _ a member => ?_, fun _ slow => ?_, fun _ => ⟨empty, ?_⟩, fun slow => ?_⟩
    · cases List.mem_append.mp member with
      | inl member => exact h.unwritten fast a member
      | inr last => rw [List.mem_singleton.mp last]; rfl
    · cases fast.symm.trans slow
    · -- A full window drops its oldest read, and so do the latest reads when one more comes.
      have same := before.length_eq
      rw [readings_append, show readings [.read q] = [q] from rfl, latest_append_singleton room]
      refine forall₂_snoc ?_ new
      rw [← same, capacity]
      split
      · rw [← List.drop_one, ← List.drop_one]
        exact List.forall₂_drop 1 before
      · exact before
    · cases fast.symm.trans slow

theorem isFast_of_wrote (wrote : writes.isEmpty = false) : { c with writes }.isFast = false := by
  rw [isFast, wrote, Bool.and_false]

theorem write (h : c.Promised stands k accesses) (slow : c.isFast = false) (wrote : writes.isEmpty = false) :
    Promised stands k { c with writes } (accesses ++ [.write l v]) :=
  h.slow_access slow rfl (isFast_of_wrote wrote) rfl (List.append_nil _).symm .nil

/-- The first write of an elastic attempt. -/
theorem first (h : c.Promised stands k accesses) (fast : c.isFast = true) (wrote : writes.isEmpty = false) :
    Promised stands k (drainWindow { c with writes }) (accesses ++ [.write l v]) where
  unwritten fast := by cases (isFast_of_wrote wrote).symm.trans fast
  written _ _ := ⟨.write l v, by simp, rfl⟩
  fast fast := by cases (isFast_of_wrote wrote).symm.trans fast
  slow _ := by
    obtain ⟨empty, before⟩ := h.fast fast
    have elastic : c.mode.isElastic = true := by
      rw [isFast, Bool.and_eq_true] at fast
      exact fast.1
    refine ⟨rfl, ?_⟩
    show List.Forall₂ stands (c.reads.entries ++ c.window.entries) (if c.mode.isElastic then _ else _)
    rw [if_pos elastic, watchedReads_first (h.unwritten fast), empty]
    exact before

end Context.Promised

end TransactionalMemory
