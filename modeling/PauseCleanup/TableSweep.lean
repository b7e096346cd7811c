import PauseCleanup.Host
import PauseCleanup.Tally
/-!
# The sweep of the string table

The host shares out its string table itself; a sweep only brackets that work with two hooks. Whether
the table is in use is asked once, so the two always go together.
-/
namespace PauseCleanup

/-- An open sweep. -/
structure TableSweep where
  enabled : Bool
  keeps : Bool := false
  deriving DecidableEq

namespace TableSweep

inductive Opening
  | start
  | prepare
  | done (enabled : Bool)

def Opening.move (resize keeps : Bool) : Opening → HostMove Unit Opening TableSweep
  | .start => .ask .tableEnabled fun enabled => if enabled then .prepare else .done false
  | .prepare => .ask (.beginSweep resize) fun _ => .done true
  | .done enabled => .finish { enabled, keeps }

/-- One worker's share of the sweep. -/
inductive Worker
  | start (id : UInt32)
  | unlinked
  | done

def Worker.move (s : TableSweep) (t : Tally) : Worker → HostMove Tally Worker Unit
  | .start id => if s.enabled then .ask (.unlink id s.keeps) fun _ => .unlinked else .access t .done
  | .unlinked => .access { t with partitions := t.partitions + 1 } .done
  | .done => .finish ()

inductive Closing
  | start
  | torn
  | done

/-- `cleanup` tells whether the sweep is closed by the unwinding of a panic; a second one ends the
process. -/
def Closing.move (s : TableSweep) (cleanup : Bool) : Closing → HostMove Unit Closing Unit
  | .start =>
    if s.enabled then
      .ask .endSweep (fun _ => .done) (if cleanup then some fun _ => .torn else none)
    else .access () .done
  | .torn => .abort .panicWhileUnwinding
  | .done => .finish ()

def taskName : String := "String Dedup Cleaning"

end TableSweep

end PauseCleanup
