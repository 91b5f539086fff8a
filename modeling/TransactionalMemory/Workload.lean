import TransactionalMemory.Script.Player

/-! # Workloads

A workload is a number of threads over shared counters.  Each thread repeats one atomic block: it
adds up some counters, then adds an amount to some counters.  Threads are meant to run at once; here
they run one after the other, which is one of the schedules.
-/

namespace TransactionalMemory

structure Thread where
  mode : Mode
  repeats : Nat
  /-- The counters to be increased, and by how much. -/
  adds : List (Location × Int64)
  /-- The counters to be added up first. -/
  sums : List Location

structure ThreadReport where
  commits : Nat
  /-- The different sums that its blocks returned, ascending. -/
  seen : List Int64

namespace Thread

def counters (t : Thread) : List Location := t.adds.map (·.1) ++ t.sums

def body (t : Thread) : List (Line (Step Unit)) :=
  t.sums.map (fun l => { step := .call 0 none (.read l .i64) })
    ++ t.adds.map (fun (l, amount) => { step := .update 0 none l .i64 (·.add (.i64 amount)) false })

def block (t : Thread) : Step Unit := .block ⟨false, false⟩ 0 1 t.mode t.body []

/-- The sum that a block returned: that of all values it has read. -/
def sumOf : Result Unit → Int64
  | .block _ _ _ (.result (.validated results)) =>
    results.foldl (fun sum result => match result with
      | .replied (.value (.i64 n)) => sum + n
      | _ => sum) 0
  | _ => 0

def insertNew (n : Int64) : List Int64 → List Int64
  | [] => [n]
  | m :: rest =>
    if n < m then n :: m :: rest else if n = m then m :: rest else m :: insertNew n rest

/-- Runs a block a number of times and collects the sums, until a fault ends the thread. -/
def repeatBlock (block : Step Unit) :
    Nat → Player Unit × List Int64 → Except Fault (List Int64) × Player Unit
  | 0, (p, seen) => (.ok seen, p)
  | n + 1, (p, seen) =>
    let ((result, _), p) := p.perform block
    match result.fault? with
    | some f => (.error f, p)
    | none => repeatBlock block n (p, insertNew (sumOf result) seen)

/-- Runs a thread on a context of its own, which is gone afterwards. -/
def run (t : Thread) (s : System) : Except Fault ThreadReport × System :=
  match (Player.createContexts 1).run { system := s } with
  | (.error f, p) => (.error f, p.system)
  | (.ok (), p) =>
    let (seen, p) := repeatBlock t.block t.repeats (p, [])
    let commits := ((p.worker? 0).map (·.context.tally.commits)).getD 0
    let (_, p) := p.perform (.drop 0)
    (seen.map fun seen => ⟨commits, if t.sums.isEmpty then [] else seen⟩, p.system)

end Thread

abbrev Workload := List Thread

namespace Workload

/-- Runs the threads one after the other; a fault ends only the thread that meets it. -/
def runThreads : Workload → System → List (Except Fault ThreadReport) × System
  | [], s => ([], s)
  | t :: rest, s =>
    let (report, s) := t.run s
    let (reports, s) := runThreads rest s
    (report :: reports, s)

/-- Runs a workload.  Nothing runs if one of its threads names a counter that does not exist. -/
def run (w : Workload) (s : System) :
    Except Fault (List (Except Fault ThreadReport) × System) := do
  (w.flatMap Thread.counters).forM s.runtime.memory.checkHandle
  return w.runThreads s

end Workload

end TransactionalMemory
