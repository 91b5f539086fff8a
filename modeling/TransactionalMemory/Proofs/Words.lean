import Std.Data.TreeMap.Lemmas
import TransactionalMemory.Log.Redo

/-! # The words of memory

Memory is compared field by field: `Memory.words` is the content of every field, and the words of a
memory after a store are those before with one of them replaced.  What a transaction writes is
applied in the same terms, `overlay`, one logged write after the other.

A field that does not exist has the word zero here, which no theorem makes use of: every write that
the theorems speak about goes to a field that exists (`Memory.Has`).
-/

namespace TransactionalMemory

/-- The contents of all fields. -/
abbrev Words := Location → UInt64

/-- The contents with another word in one field. -/
def Words.put (m : Words) (l : Location) (word : UInt64) : Words := fun k => if k = l then word else m k

@[simp] theorem Words.put_self (m : Words) (l : Location) (word : UInt64) : m.put l word l = word :=
  if_pos rfl

theorem Words.put_other {k l : Location} (h : k ≠ l) (m : Words) (word : UInt64) :
    m.put l word k = m k := if_neg h

/-! ## Encoding -/

theorem characterOf_val (c : Char) : characterOf c.val = c := by
  have valid : c.val.isValidChar := c.valid
  simp [characterOf, valid]

theorem Value.decode_encode (v : Value) : decode v.encode v.kind = v := by
  cases v with
  | bool b => cases b <;> rfl
  | char c => simp [decode, encode, kind, characterOf_val]
  | _ => simp [decode, encode, kind]

/-- A buffered value is read as its stored word would be. -/
theorem Value.reinterpret_eq_decode (v : Value) (k : Kind) : v.reinterpret k = decode v.encode k := by
  simp only [reinterpret]
  split
  · next same => rw [← same, decode_encode]
  · rfl

/-! ## Fields -/

namespace Memory

/-- Whether a location names a field that exists. -/
def Has (m : Memory) (l : Location) : Prop := l.offset < (m.fields l.object).size

instance (m : Memory) (l : Location) : Decidable (m.Has l) := inferInstanceAs (Decidable (_ < _))

/-- The content of every field. -/
def words (m : Memory) : Words := fun l => (m.fields l.object)[l.offset]?.getD 0

/-- Two memories have the same objects, of the same sizes. -/
def SameShape (m m' : Memory) : Prop := ∀ address, (m'.fields address).size = (m.fields address).size

theorem SameShape.has {m m' : Memory} (h : SameShape m m') (l : Location) : m'.Has l ↔ m.Has l := by
  simp only [Has, h l.object]

theorem fields_insert (m : Memory) (a b : Nat) (words : Array UInt64) :
    (m.insert a words).fields b = if a = b then words else m.fields b := by
  simp [fields, insert, Std.TreeMap.getD_insert]

theorem peek_eq_ok_iff {m : Memory} {l : Location} {k : Kind} {v : Value} :
    m.peek l k = .ok v ↔ m.Has l ∧ Value.decode (m.words l) k = v := by
  simp only [peek, load, Has, words]
  by_cases inside : l.offset < (m.fields l.object).size
  · simp [inside, Except.map]
  · simp [inside, Except.map]

theorem store_of_has {m : Memory} {l : Location} (h : m.Has l) (word : UInt64) :
    ∃ m', m.store l word = .ok m' ∧ m'.words = m.words.put l word ∧ SameShape m m' := by
  unfold Has at h
  refine ⟨m.insert l.object ((m.fields l.object).set l.offset word h), ?_, ?_, ?_⟩
  · simp [store, h]
  · funext k
    by_cases same : k = l
    · subst same
      simp [words, fields_insert]
    · rw [Words.put_other same]
      simp only [words, fields_insert]
      split
      · next sameObject =>
        have differs : l.offset ≠ k.offset := by
          intro sameOffset
          apply same
          cases k; cases l
          simp_all
        rw [Array.getElem?_set_ne h differs, sameObject]
      · rfl
  · intro address
    rw [fields_insert]
    split
    · next same => rw [Array.size_set, same]
    · rfl

end Memory

/-! ## Logged writes -/

/-- The contents after logged writes, one after the other. -/
def overlay (entries : List WriteEntry) (m : Words) : Words :=
  entries.foldl (fun m e => m.put e.location e.value.encode) m

@[simp] theorem overlay_nil (m : Words) : overlay [] m = m := rfl

@[simp] theorem overlay_cons (e : WriteEntry) (entries : List WriteEntry) (m : Words) :
    overlay (e :: entries) m = overlay entries (m.put e.location e.value.encode) := rfl

theorem overlay_other {l : Location} : ∀ {entries : List WriteEntry} (m : Words),
    (∀ e ∈ entries, e.location ≠ l) → overlay entries m l = m l
  | [], _, _ => rfl
  | e :: entries, m, h => by
    rw [overlay_cons, overlay_other _ fun e' member => h e' (List.mem_cons_of_mem _ member)]
    exact Words.put_other (h e List.mem_cons_self).symm m _

theorem overlay_of_mem {e : WriteEntry} : ∀ {entries : List WriteEntry} (m : Words),
    entries.Pairwise (fun a b => a.location ≠ b.location) → e ∈ entries →
      overlay entries m e.location = e.value.encode
  | first :: entries, m, distinct, member => by
    obtain ⟨apart, distinct⟩ := List.pairwise_cons.mp distinct
    rw [overlay_cons]
    cases member with
    | head => rw [overlay_other _ fun e' member => (apart e' member).symm, Words.put_self]
    | tail _ member => exact overlay_of_mem _ distinct member

theorem RedoLog.store_of_has : ∀ {entries : List WriteEntry} {m : Memory},
    (∀ e ∈ entries, m.Has e.location) →
      ∃ m', RedoLog.store entries m = (.ok (), m') ∧ m'.words = overlay entries m.words ∧
        m.SameShape m'
  | [], m, _ => ⟨m, rfl, rfl, fun _ => rfl⟩
  | e :: entries, m, h => by
    obtain ⟨middle, stored, middleWords, middleShape⟩ :=
      Memory.store_of_has (h e List.mem_cons_self) e.value.encode
    have remaining : ∀ e' ∈ entries, middle.Has e'.location := fun e' member =>
      (middleShape.has _).mpr (h e' (List.mem_cons_of_mem _ member))
    obtain ⟨final, storedRest, finalWords, finalShape⟩ := RedoLog.store_of_has remaining
    refine ⟨final, ?_, ?_, fun address => (finalShape address).trans (middleShape address)⟩
    · simp [RedoLog.store, stored, storedRest]
    · rw [finalWords, middleWords, overlay_cons]

end TransactionalMemory
