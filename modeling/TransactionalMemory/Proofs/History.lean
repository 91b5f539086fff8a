import Mathlib.Data.List.Induction
import TransactionalMemory.Proofs.Chronicle
import TransactionalMemory.Proofs.RedoLog

/-! # Committed memory and its versions

The commits of a run, in order, determine memory: each one lays its write log over what the earlier
ones left.  `contentAt` is memory as it was at an earlier value of the clock, after the commits up to
that stamp; it never changes again, because later commits have larger stamps.

`version` is the stamp of the last commit that wrote under a slot.  Between that stamp and now, no
field under the slot has changed (`Ledger.contentAt_eq`), and this is what a stamp in the lock table
stands for: the `Ledger` says that memory is the committed memory and that every free slot carries
its version.
-/

namespace TransactionalMemory

/-- The words after commits, one after the other. -/
def committed (m : Words) (commits : List Commit) : Words :=
  commits.foldl (fun m x => overlay x.context.writes.entries m) m

/-- The words at a value of the clock: after the commits with a stamp up to it. -/
def contentAt (m : Words) (commits : List Commit) (time : Nat) : Words :=
  committed m (commits.filter (·.stamp ≤ time))

/-- The stamp of the last commit that wrote under a slot, zero before the first. -/
def version (commits : List Commit) (slot : Nat) : Nat :=
  commits.foldl (fun v x => if x.context.writes.owns slot then x.stamp else v) 0

@[simp] theorem committed_append (m : Words) (commits new : List Commit) :
    committed m (commits ++ new) = committed (committed m commits) new := List.foldl_append

@[simp] theorem committed_singleton (m : Words) (x : Commit) :
    committed m [x] = overlay x.context.writes.entries m := rfl

theorem version_append (commits : List Commit) (x : Commit) (slot : Nat) :
    version (commits ++ [x]) slot =
      if x.context.writes.owns slot then x.stamp else version commits slot := by
  simp [version, List.foldl_append]

/-- Commits after a value of the clock are not among those up to it. -/
theorem filter_append_of_later {new : List Commit} {time : Nat} (later : ∀ x ∈ new, time < x.stamp)
    (commits : List Commit) :
    (commits ++ new).filter (·.stamp ≤ time) = commits.filter (·.stamp ≤ time) := by
  have none : new.filter (·.stamp ≤ time) = [] := by
    rw [List.filter_eq_nil_iff]
    intro x member
    simpa using later x member
  rw [List.filter_append, none, List.append_nil]

theorem contentAt_append {new : List Commit} {time : Nat} (later : ∀ x ∈ new, time < x.stamp)
    (m : Words) (commits : List Commit) :
    contentAt m (commits ++ new) time = contentAt m commits time := by
  rw [contentAt, filter_append_of_later later, contentAt]

theorem contentAt_of_forall_le {commits : List Commit} {time : Nat}
    (all : ∀ x ∈ commits, x.stamp ≤ time) (m : Words) : contentAt m commits time = committed m commits := by
  rw [contentAt, List.filter_eq_self.mpr fun x member => by simpa using all x member]

theorem version_append_of_not_owns {slot : Nat} {new : List Commit} (commits : List Commit)
    (others : ∀ x ∈ new, ¬ x.context.writes.owns slot) :
    version (commits ++ new) slot = version commits slot := by
  induction new using List.reverseRecOn with
  | nil => rw [List.append_nil]
  | append_singleton new x ih =>
    rw [← List.append_assoc, version_append,
      if_neg (others x (List.mem_append_right _ (List.mem_singleton_self x)))]
    exact ih fun y member => others y (List.mem_append_left _ member)

theorem version_le {commits : List Commit} {bound : Nat} (all : ∀ x ∈ commits, x.stamp ≤ bound)
    (slot : Nat) : version commits slot ≤ bound := by
  induction commits using List.reverseRecOn with
  | nil => exact Nat.zero_le _
  | append_singleton commits x ih =>
    rw [version_append]
    split
    · exact all x (List.mem_append_right _ (List.mem_singleton_self x))
    · exact ih fun y member => all y (List.mem_append_left _ member)

/-- From the version of its slot on, a field has not changed. -/
theorem contentAt_of_version_le {slotOf : Location → Nat} {commits : List Commit}
    (ordered : commits.Pairwise (·.stamp < ·.stamp))
    (logs : ∀ x ∈ commits, x.context.writes.WellFormed slotOf) {l : Location} {time : Nat}
    (recent : version commits (slotOf l) ≤ time) (m : Words) :
    contentAt m commits time l = committed m commits l := by
  induction commits using List.reverseRecOn with
  | nil => rfl
  -- Commits are taken off at the end, since the last one that wrote decides.
  | append_singleton commits x ih =>
    have wf : x.context.writes.WellFormed slotOf := logs x (by simp)
    rw [version_append] at recent
    obtain ⟨ordered, -, before⟩ := List.pairwise_append.mp ordered
    -- If the last commit wrote under the slot, its stamp is the version, and all commits count.  If it
    -- did not, it leaves the field as it is, whether it counts or not.
    by_cases owned : x.context.writes.owns (slotOf l)
    · rw [if_pos owned] at recent
      rw [contentAt_of_forall_le]
      intro y member
      cases List.mem_append.mp member with
      | inl member =>
        exact Nat.le_trans (Nat.le_of_lt (before y member x (List.mem_singleton_self x))) recent
      | inr member =>
        rw [List.mem_singleton.mp member]
        exact recent
    · rw [if_neg owned] at recent
      have same := ih ordered (fun y member => logs y (by simp [member])) recent
      have notHeld : x.context.writes.stamp? (slotOf l) = none := by simpa [RedoLog.owns] using owned
      have untouched : ∀ m : Words, overlay x.context.writes.entries m l = m l := fun m => by
        rw [RedoLog.overlay_apply wf, wf.value?_of_not_held notHeld]
      have snoc : contentAt m (commits ++ [x]) time =
          committed (contentAt m commits time) ([x].filter (·.stamp ≤ time)) := by
        rw [contentAt, List.filter_append, committed_append, contentAt]
      rw [committed_append, committed_singleton, untouched, ← same, snoc]
      by_cases early : x.stamp ≤ time
      · rw [List.filter_cons_of_pos (by simpa using early), List.filter_nil, committed_singleton,
          untouched]
      · rw [List.filter_cons_of_neg (by simpa using early)]
        rfl

/-! ## The ledger -/

/-- Memory is the committed memory, and every free slot carries its version. -/
structure Ledger (m₀ : Memory) (r : Runtime) (commits : List Commit) : Prop where
  ordered : commits.Pairwise (·.stamp < ·.stamp)
  stamped : ∀ x ∈ commits, x.stamp ≤ r.clock.now
  logs : ∀ x ∈ commits, x.context.writes.WellFormed r.table.slotOf
  words : r.memory.words = committed m₀.words commits
  shape : m₀.SameShape r.memory
  free : ∀ slot stamp, r.table.word slot = .free stamp → version commits slot = stamp

namespace Ledger

variable {m₀ : Memory} {r : Runtime} {commits : List Commit}

theorem version_le_now (h : Ledger m₀ r commits) (slot : Nat) : version commits slot ≤ r.clock.now :=
  version_le h.stamped slot

theorem contentAt_eq (h : Ledger m₀ r commits) {l : Location} {time : Nat}
    (recent : version commits (r.table.slotOf l) ≤ time) :
    contentAt m₀.words commits time l = r.memory.words l := by
  rw [h.words, contentAt_of_version_le h.ordered h.logs recent]

theorem contentAt_now (h : Ledger m₀ r commits) :
    contentAt m₀.words commits r.clock.now = r.memory.words := by
  rw [h.words, contentAt_of_forall_le h.stamped]

end Ledger

end TransactionalMemory
