import PauseCleanup.Race.Frontier
import PauseCleanup.Race.OneShot
import PauseCleanup.Tally
/-!
# Unloading: the code cache, shared out

The first alive unit belongs to worker 0, and the one-shot `first` keeps it from being unloaded
twice; all units after it are claimed in batches from the frontier.
-/
namespace PauseCleanup.Unloading

/-- What is fixed when an unloading is opened. -/
structure Plan where
  pass : PassId
  unloading : Bool
  workers : UInt32
  batch : BatchSize
  first : Option UnitId
  /-- Alive units counted before any worker came, if that was asked for. -/
  expected : Option UInt64 := none
  hostChecks : Bool := true

structure Shared where
  first : OneShot := {}
  frontier : Frontier
  unloaded : UInt64 := 0
  entered : UInt64 := 0

/-- Compares the units unloaded with those counted before. -/
def checkCount (expected : Option UInt64) (unloaded : UInt64) : Option Violation :=
  match expected with
  | none => none
  | some n => if n = unloaded then none else some (.countMismatch n unloaded)

@[simp] theorem checkCount_none (unloaded : UInt64) : checkCount none unloaded = none := rfl

theorem checkCount_some_eq_none {n unloaded : UInt64} :
    checkCount (some n) unloaded = none ↔ n = unloaded := by
  unfold checkCount
  split <;> simp_all

end PauseCleanup.Unloading
