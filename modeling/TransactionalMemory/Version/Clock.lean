import TransactionalMemory.Fault

/-! # The commit clock

One counter orders all commits that write.  Its value before the first commit is 0, every writing
commit takes the next value as its stamp, and a commit that fails its last check has used one up
too.
-/

namespace TransactionalMemory

/-- The counter of commits that write. -/
structure Clock where
  now : Nat := 0
  deriving DecidableEq, Repr

namespace Clock

/-- The next stamp, which is the clock's value from here on.  A full counter starts again at zero,
    and its caller meets the overflow. -/
def advance (c : Clock) : Except Fault Nat × Clock :=
  (counter (c.now + 1), ⟨(c.now + 1) % wordRange⟩)

def text (c : Clock) : String := s!"GlobalClock \x7b now: {c.now} \x7d"

end Clock

end TransactionalMemory
