import PauseCleanup.Violation
/-!
# Notices: what a call makes known as it goes

Calls announce the spans they enter and leave and the events worth a line in a trace. A notice says
what happened in the words of a pass; `PauseCleanup.Trace.Recorder` turns it into numbered records.
-/
namespace PauseCleanup

/-- The parts of one worker's share of a pass, in the order in which it goes through them. -/
inductive Phase
  | metadata
  | code
  | table
  | classes
  deriving DecidableEq

def Phase.name : Phase → String
  | .metadata => "Jvmci"
  | .code => "CodeCache"
  | .table => "StringDedup"
  | .classes => "Klass"

inductive Notice
  | preparing (pass : PassId) (workers : UInt32) (unloading : Bool) (batch : UInt64)
  | passOpened (pass : PassId) (workers : UInt32) (unloading : Bool)
  | passEntered (pass : PassId)
  | passLeft
  | passDone (pass : PassId) (units classes retries : UInt64)
  | passClosed (pass : PassId)
  | phaseEntered (pass : PassId) (worker : UInt32) (phase : Phase)
  | phaseEnded (worker : UInt32) (phase : Phase) (items : Nat)
  | phaseLeft
  | crewEntered (crew task : String) (workers : UInt32)
  | spawnFailed (worker : UInt32)
  | crewLeft
  | violated (found : Violation)
  deriving DecidableEq

end PauseCleanup
