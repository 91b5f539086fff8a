import TransactionalMemory.Conflict
import TransactionalMemory.Fault

/-! # How an atomic block ends

A block that commits hands back what its body returned, be it a value or a failure of the body's
own: the failure counts only because the attempt that met it could commit.  A block that never
commits gives up, and then no attempt of it had any effect.
-/

namespace TransactionalMemory

/-- What the body of an atomic block returns: a value, a failure of its own, or a conflict. -/
inductive BodyResult (α ε : Type) where
  | value (a : α)
  | failure (e : ε)
  | conflict (c : Conflict)
  deriving DecidableEq, Repr

namespace BodyResult

def isConflict {α ε : Type} : BodyResult α ε → Bool
  | conflict _ => true
  | _ => false

/-- What a body reports that ends without a value: the conflict's own text, and the same words for
    every failure. -/
def errorText? {α ε : Type} : BodyResult α ε → Option String
  | value _ => none
  | failure _ => some "user failure"
  | conflict c => some c.signalText

end BodyResult

/-- A block that gave up: its id and how often its body ran. -/
structure GaveUp where
  block : Nat
  attempts : Nat
  deriving DecidableEq, Repr

def GaveUp.text (g : GaveUp) : String :=
  s!"atomic block {g.block} gave up after {g.attempts} attempts"

/-- How an atomic block ends. -/
inductive BlockResult (α ε : Type) where
  | validated (a : α)
  | cancelled (e : ε)
  | failed (g : GaveUp)
  deriving DecidableEq, Repr

namespace BlockResult

variable {α ε : Type}

def isValidated : BlockResult α ε → Bool
  | validated _ => true
  | _ => false

def isCancelled : BlockResult α ε → Bool
  | cancelled _ => true
  | _ => false

def isFailed : BlockResult α ε → Bool
  | failed _ => true
  | _ => false

def validated? : BlockResult α ε → Option α
  | validated a => some a
  | _ => none

def cancelled? : BlockResult α ε → Option ε
  | cancelled e => some e
  | _ => none

def failed? : BlockResult α ε → Option GaveUp
  | failed g => some g
  | _ => none

/-- The block as a plain result, giving up made into a failure by `f`. -/
def toExcept (f : GaveUp → ε) : BlockResult α ε → Except ε α
  | validated a => .ok a
  | cancelled e => .error e
  | failed g => .error (f g)

/-- The value, or a fault that starts with the given text. -/
def expect (message : String) (quote : ε → String) : BlockResult α ε → Except Fault α
  | validated a => .ok a
  | cancelled e => .error (.raised (message ++ ": " ++ quote e))
  | failed g => .error (.raised (message ++ ": " ++ g.text))

/-- What is said of a call that insisted on another outcome than the one it met. -/
def insistedText (call met detail : String) : String :=
  "called `TransactionResult::" ++ call ++ "()` on a `" ++ met ++ "` value: " ++ detail

/-- The value, or a fault that names the outcome that was met instead. -/
def getValue (quote : ε → String) : BlockResult α ε → Except Fault α
  | validated a => .ok a
  | cancelled e => .error (.raised (insistedText "unwrap" "Cancelled" (quote e)))
  | failed g => .error (.raised (insistedText "unwrap" "Failed" g.text))

/-- The failure, or a fault that names the outcome that was met instead. -/
def getFailure (quote : α → String) : BlockResult α ε → Except Fault ε
  | validated a => .error (.raised (insistedText "unwrap_err" "Validated" (quote a)))
  | cancelled e => .ok e
  | failed g => .error (.raised (insistedText "unwrap_err" "Failed" g.text))

def getD (r : BlockResult α ε) (default : α) : α := r.validated?.getD default

end BlockResult

end TransactionalMemory
