import Mathlib.Data.List.Forall2
import Mathlib.Data.List.TakeWhile
import TransactionalMemory.Proofs.Chronicle

/-! # Reads from memory and the latest of them

The reads that an attempt answers for are picked from the list of its accesses: those whose values
came from memory, the `k` latest of these before the first write, and all after it.  What one more
access does to each of these lists is said here, without any state.
-/

namespace TransactionalMemory

/-! ## Reads from memory -/

theorem fromMemory_append (accesses rest : List Access) :
    fromMemory (accesses ++ rest) = fromMemory accesses ++ fromMemory rest := List.filterMap_append

@[simp] theorem fromMemory_write (l : Location) (v : Value) : fromMemory [.write l v] = [] := rfl

theorem fromMemory_of_buffered {q : Reading} (h : q.source = .buffered) : fromMemory [.read q] = [] := by
  simp [fromMemory, Access.fromMemory?, h]

theorem fromMemory_of_not_buffered {q : Reading} (h : q.source ≠ .buffered) :
    fromMemory [.read q] = [q] := by simp [fromMemory, Access.fromMemory?, h]

theorem fromMemory_map_read {reads : List Reading} (h : ∀ q ∈ reads, q.source ≠ .buffered) :
    fromMemory (reads.map .read) = reads := by
  induction reads with
  | nil => rfl
  | cons q reads ih =>
    have rest := ih fun r member => h r (List.mem_cons_of_mem _ member)
    rw [List.map_cons, ← List.singleton_append, fromMemory_append,
      fromMemory_of_not_buffered (h q List.mem_cons_self), rest]
    rfl

theorem source_of_mem_fromMemory {accesses : List Access} {q : Reading} (h : q ∈ fromMemory accesses) :
    q.source ≠ .buffered := by
  obtain ⟨a, _, found⟩ := List.mem_filterMap.mp h
  cases a with
  | write l v => cases found
  | read r =>
    intro buffered
    simp only [Access.fromMemory?] at found
    split at found
    · cases found
    · next differs =>
      cases found
      exact differs buffered

/-! ## The latest elements of a list -/

section

variable {α : Type} {k : Nat}

theorem mem_of_mem_latest {l : List α} {a : α} (h : a ∈ latest k l) : a ∈ l := List.mem_of_mem_drop h

theorem mem_latest {l : List α} {i : Nat} {a : α} (here : l[i]? = some a) (recent : l.length ≤ i + k) :
    a ∈ latest k l := by
  refine List.mem_of_getElem? (i := i - (l.length - k)) ?_
  rw [latest, List.getElem?_drop, ← here]
  congr 1
  omega

theorem latest_append_singleton (pos : 0 < k) (l : List α) (a : α) :
    latest k (l ++ [a]) =
      (if (latest k l).length = k then (latest k l).tail else latest k l) ++ [a] := by
  have len : (latest k l).length = min l.length k := by
    rw [latest, List.length_drop]
    omega
  rw [len]
  simp only [latest]
  rw [List.length_append, List.length_singleton]
  by_cases full : k ≤ l.length
  · have drop : l.length + 1 - k = l.length - k + 1 := by omega
    rw [if_pos (by omega), drop, List.drop_append_of_le_length (by omega), List.tail_drop]
  · have drop : l.length + 1 - k = 0 := by omega
    have drop' : l.length - k = 0 := by omega
    rw [if_neg (by omega), drop, drop', List.drop_zero, List.drop_zero]

end

theorem mem_fromMemory_of_guarded {k : Nat} {accesses : List Access} {q : Reading}
    (h : q ∈ guarded k accesses) : q ∈ fromMemory accesses := by
  have split := fromMemory_append (accesses.takeWhile Access.isRead) (accesses.dropWhile Access.isRead)
  rw [List.takeWhile_append_dropWhile] at split
  rw [split]
  cases List.mem_append.mp h with
  | inl member => exact List.mem_append_left _ (mem_of_mem_latest member)
  | inr member => exact List.mem_append_right _ member

/-- The accesses before the first write and those from it on, once there is a first write. -/
theorem split_append_of_written {accesses : List Access} (written : ∃ a ∈ accesses, a.isRead = false)
    (rest : List Access) :
    (accesses ++ rest).takeWhile Access.isRead = accesses.takeWhile Access.isRead ∧
      (accesses ++ rest).dropWhile Access.isRead = accesses.dropWhile Access.isRead ++ rest := by
  obtain ⟨a, member, write⟩ := written
  -- The first write ends the leading reads, and what is appended comes after it.
  have stops : accesses.takeWhile Access.isRead ≠ accesses := fun all => by
    rw [← all] at member
    rw [List.mem_takeWhile_imp member] at write
    cases write
  have shorter : (accesses.takeWhile Access.isRead).length ≠ accesses.length := fun same =>
    stops ((List.takeWhile_prefix _).eq_of_length same)
  have more : accesses.dropWhile Access.isRead ≠ [] := fun none =>
    stops (by simpa [none] using List.takeWhile_append_dropWhile (p := Access.isRead) (l := accesses))
  rw [List.takeWhile_append, if_neg shorter, List.dropWhile_append, if_neg (by simpa using more)]
  exact ⟨rfl, rfl⟩

/-- After the first write, every read from memory is one that the attempt answers for. -/
theorem guarded_append {k : Nat} {accesses : List Access} (written : ∃ a ∈ accesses, a.isRead = false)
    (rest : List Access) : guarded k (accesses ++ rest) = guarded k accesses ++ fromMemory rest := by
  obtain ⟨before, after⟩ := split_append_of_written written rest
  rw [guarded, guarded, before, after, fromMemory_append, List.append_assoc]

theorem guarded_reads (k : Nat) {reads : List Reading} (memory : ∀ q ∈ reads, q.source ≠ .buffered)
    (l : Location) (v : Value) : guarded k (reads.map .read ++ [.write l v]) = latest k reads := by
  have all : ∀ a ∈ reads.map Access.read, a.isRead = true := fun a member => by
    obtain ⟨q, _, rfl⟩ := List.mem_map.mp member
    rfl
  rw [guarded, List.takeWhile_append_of_pos all, List.dropWhile_append_of_pos all]
  simp [List.takeWhile, List.dropWhile, Access.isRead, fromMemory_map_read memory]

/-! ## Lists side by side -/

theorem exists_of_mem_right {α β : Type} {r : α → β → Prop} {as : List α} {bs : List β} {b : β}
    (h : List.Forall₂ r as bs) (member : b ∈ bs) : ∃ a ∈ as, r a b := by
  induction h with
  | nil => cases member
  | cons first _ ih =>
    cases member with
    | head => exact ⟨_, List.mem_cons_self, first⟩
    | tail _ member =>
      obtain ⟨a, memberA, related⟩ := ih member
      exact ⟨a, List.mem_cons_of_mem _ memberA, related⟩

theorem forall₂_snoc {α β : Type} {r : α → β → Prop} {as : List α} {bs : List β} {a : α} {b : β}
    (h : List.Forall₂ r as bs) (last : r a b) : List.Forall₂ r (as ++ [a]) (bs ++ [b]) :=
  List.rel_append h (.cons last .nil)

end TransactionalMemory
