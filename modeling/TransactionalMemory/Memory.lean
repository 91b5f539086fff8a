import Std.Data.TreeMap.Basic
import TransactionalMemory.Fault
import TransactionalMemory.Word

/-! # Shared memory

Memory is made of objects: an address, which is the identity of the object, and a fixed number of
fields, each one word.  A `Location` names a field by the address and the offset in the object; it
may name a field that the object does not have, and then loads and stores there are faults.
-/

namespace TransactionalMemory

/-- A field: the address of its object and its place there. -/
structure Location where
  object : Nat
  offset : Nat
  deriving DecidableEq, Repr

/-- The words of all objects, by address. -/
structure Memory where
  objects : Std.TreeMap Nat (Array UInt64) := ∅

namespace Memory

def insert (m : Memory) (address : Nat) (words : Array UInt64) : Memory :=
  ⟨m.objects.insert address words⟩

/-- The fields of an object, none if there is no such object. -/
def fields (m : Memory) (address : Nat) : Array UInt64 := m.objects.getD address #[]

def load (m : Memory) (l : Location) : Except Fault UInt64 :=
  let words := m.fields l.object
  if h : l.offset < words.size then .ok words[l.offset]
  else .error (.outOfBounds words.size l.offset)

def store (m : Memory) (l : Location) (word : UInt64) : Except Fault Memory :=
  let words := m.fields l.object
  if h : l.offset < words.size then .ok (m.insert l.object (words.set l.offset word))
  else .error (.outOfBounds words.size l.offset)

/-- The value of a field, read outside of any transaction. -/
def peek (m : Memory) (l : Location) (k : Kind) : Except Fault Value :=
  (m.load l).map (Value.decode · k)

/-- Refuses a handle on a field that the object does not have. -/
def checkHandle (m : Memory) (l : Location) : Except Fault Unit :=
  let words := m.fields l.object
  if l.offset < words.size then .ok ()
  else .error (.noSuchField l.offset words.size)

end Memory

end TransactionalMemory
