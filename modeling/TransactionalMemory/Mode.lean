/-! # Validation policies

The policy of an attempt says which of its reads stay under watch.  It is chosen when the attempt
begins, from a text in which `elastic` wins over `roregular`.
-/

namespace TransactionalMemory

/-- The validation policy of an attempt. -/
inductive Mode where
  /-- Every read is logged, and all of them are checked again when the snapshot has to grow. -/
  | regular
  /-- As `regular`, for a block that declares that it only reads; only the counters tell. -/
  | readOnlyRegular
  /-- Until the first write only the most recent reads are under watch. -/
  | elastic
  deriving DecidableEq, Repr

namespace Mode

def occurs (word : List Char) : List Char → Bool
  | [] => word.isEmpty
  | c :: rest => word.isPrefixOf (c :: rest) || occurs word rest

/-- The policy that a text asks for: the words may stand anywhere in it. -/
def parse (text : String) : Mode :=
  if occurs "elastic".toList text.toList then elastic
  else if occurs "roregular".toList text.toList then readOnlyRegular
  else regular

/-- Whether only the most recent reads are under watch before the first write. -/
def isElastic : Mode → Bool
  | elastic => true
  | _ => false

def name : Mode → String
  | regular => "Regular"
  | readOnlyRegular => "ReadOnlyRegular"
  | elastic => "Elastic"

def ofName? (text : String) : Option Mode :=
  [regular, readOnlyRegular, elastic].find? (·.name = text)

end Mode

end TransactionalMemory
