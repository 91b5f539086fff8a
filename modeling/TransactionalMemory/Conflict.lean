/-! # Why an attempt is aborted

Every conflict is a reason to run the block again, so none of them says that the block itself is at
fault.  The six causes are counted apart; `Conflict.index` is the place of a cause in the counters.
-/

namespace TransactionalMemory

/-- Why an attempt of a transaction was aborted. -/
inductive Conflict where
  /-- Another transaction holds the slot that covers the location. -/
  | lockedByOther
  /-- A recent read was overtaken before the next read of an elastic transaction. -/
  | betweenSuccessiveReads
  /-- A recent read was overtaken before the first write of an elastic transaction. -/
  | betweenReadAndWrite
  /-- The location that is written was read before, and was committed to since. -/
  | writeAfterRead
  /-- A logged read was overtaken when the snapshot had to grow. -/
  | extendFailed
  /-- A logged read was overtaken when the attempt tried to commit. -/
  | invalidCommit
  deriving DecidableEq, Repr

namespace Conflict

def all : List Conflict :=
  [lockedByOther, betweenSuccessiveReads, betweenReadAndWrite, writeAfterRead, extendFailed,
    invalidCommit]

def index : Conflict → Fin 6
  | lockedByOther => 0
  | betweenSuccessiveReads => 1
  | betweenReadAndWrite => 2
  | writeAfterRead => 3
  | extendFailed => 4
  | invalidCommit => 5

def name : Conflict → String
  | lockedByOther => "LockedByOther"
  | betweenSuccessiveReads => "BetweenSuccessiveReads"
  | betweenReadAndWrite => "BetweenReadAndWrite"
  | writeAfterRead => "WriteAfterRead"
  | extendFailed => "ExtendFailed"
  | invalidCommit => "InvalidCommit"

def ofName? (text : String) : Option Conflict :=
  all.find? (·.name = text)

def text : Conflict → String
  | lockedByOther => "location locked by another transaction"
  | betweenSuccessiveReads => "conflict between successive reads"
  | betweenReadAndWrite => "conflict between read and write"
  | writeAfterRead => "write after read of a newer version"
  | extendFailed => "snapshot extension failed"
  | invalidCommit => "commit validation failed"

/-- What an access that aborts its attempt reports. -/
def signalText (c : Conflict) : String := "transaction aborted: " ++ c.text

theorem mem_all (c : Conflict) : c ∈ all := by cases c <;> decide

theorem index_injective {a b : Conflict} (h : a.index = b.index) : a = b := by
  revert h; cases a <;> cases b <;> decide

end Conflict

end TransactionalMemory
