import PauseCleanup.Ident
/-!
# Tuning of a pass

How many workers will come, how many units one claim takes, whether the string table is resized and
whether the pass is checked afterwards. Whatever is asked for, at least one worker is expected.
-/
namespace PauseCleanup

structure Tuning where
  /-- `none`: as many as the machine runs at once. -/
  workers : Option UInt32
  batch : BatchSize := ⟨16, by decide⟩
  resize : Bool := false
  verify : Bool := true
  deriving DecidableEq

namespace Tuning

def atLeastOne (n : UInt32) : UInt32 := if n < 1 then 1 else n

theorem one_le_atLeastOne (n : UInt32) : 1 ≤ atLeastOne n := by
  unfold atLeastOne
  split
  · decide
  · next h => exact UInt32.not_lt.1 h

def default : Tuning := { workers := none }

def forWorkers (n : UInt32) : Tuning := { workers := some (atLeastOne n) }

def setWorkers (t : Tuning) (n : UInt32) : Tuning := { t with workers := some (atLeastOne n) }

/-- The number of workers that a pass expects on a machine that runs `machine` at once. -/
def headcount (t : Tuning) (machine : UInt32) : UInt32 := atLeastOne (t.workers.getD machine)

theorem one_le_headcount (t : Tuning) (machine : UInt32) : 1 ≤ t.headcount machine :=
  one_le_atLeastOne _

def isDefaultFor (t : Tuning) (n : UInt32) : Bool := t == forWorkers n

end Tuning

end PauseCleanup
