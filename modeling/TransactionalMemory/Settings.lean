/-! # Settings of a runtime

Three numbers fix a runtime: how many slots its lock table has, how many recent reads an elastic
transaction keeps under watch, and how often an atomic block may try.
-/

namespace TransactionalMemory

structure Settings where
  /-- The lock table has `2 ^ tableBits` slots. -/
  tableBits : Nat := 20
  window : Nat := 2
  retryBudget : Option Nat := none
  deriving DecidableEq, Repr

inductive SettingsError where
  | tableBits (bits : Nat)
  | emptyWindow
  | zeroRetryBudget
  deriving DecidableEq, Repr

namespace SettingsError

def name : SettingsError → String
  | tableBits _ => "LockTableBits"
  | emptyWindow => "EmptyElasticWindow"
  | zeroRetryBudget => "ZeroRetryBudget"

def text : SettingsError → String
  | tableBits bits => s!"lock table bits must be in 1..=28, got {bits}"
  | emptyWindow => "elastic window must hold at least one read"
  | zeroRetryBudget => "retry budget must allow at least one attempt"

end SettingsError

namespace Settings

/-- The largest table has `2 ^ 28` slots. -/
def maxTableBits : Nat := 28

/-- The first complaint about settings, the table's before the window's before the budget's. -/
def validate (s : Settings) : Except SettingsError Unit :=
  if s.tableBits < 1 || maxTableBits < s.tableBits then .error (.tableBits s.tableBits)
  else if s.window = 0 then .error .emptyWindow
  else if s.retryBudget = some 0 then .error .zeroRetryBudget
  else .ok ()

def text (s : Settings) : String :=
  let budget := match s.retryBudget with
    | none => "None"
    | some n => s!"Some({n})"
  s!"StmConfig \x7b lock_table_bits: {s.tableBits}, elastic_window: {s.window}, " ++
    s!"retry_budget: {budget} \x7d"

end Settings

end TransactionalMemory
