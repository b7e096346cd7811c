import PauseCleanup.Violation
/-!
# Panics and aborts

The library panics for the reasons in `Fault`, and any callback of the host with a payload of its
own. An abort ends the whole process.
-/
namespace PauseCleanup

/-- What a panic hands to whoever catches it. -/
inductive Payload
  | text (message : String)
  | number (value : Int)
  deriving DecidableEq

/-- Why the library itself panics. -/
inductive Fault
  | addOverflow
  | subtractOverflow
  | bufferTooLarge
  | noWorkers
  | workerOutOfRange (worker workers : UInt32)
  | zeroInThreadName (name : String)
  deriving DecidableEq

def describeZero (name : String) : String :=
  let bytes := name.toUTF8.data.toList
  let place := bytes.findIdx (· == 0)
  let listed := ", ".intercalate (bytes.map fun b => toString b.toNat)
  s!"NulError({place}, [{listed}])"

def Fault.message : Fault → String
  | .addOverflow => "attempt to add with overflow"
  | .subtractOverflow => "attempt to subtract with overflow"
  | .bufferTooLarge => "capacity overflow"
  | .noWorkers => "a cleaning pass needs at least one worker"
  | .workerOutOfRange worker workers => s!"worker {worker} out of range for {workers} workers"
  | .zeroInThreadName name =>
    s!"thread name may not contain interior null bytes: {describeZero name}"

/-- A panic in flight: the library's own, or one raised by the host. -/
inductive Panic
  | fault (cause : Fault)
  | raised (payload : Payload)
  deriving DecidableEq

def Panic.payload : Panic → Payload
  | .fault cause => .text cause.message
  | .raised payload => payload

@[simp] theorem Panic.payload_raised (p : Payload) : (Panic.raised p).payload = p := rfl

/-- How a call that closes something comes to be made. -/
inductive Occasion
  /-- No panic is under way on the thread. -/
  | calm
  /-- The thread unwinds from a panic, and a cleanup that it runs makes the call and catches what it
  panics with. -/
  | sheltered
  /-- The call is a cleanup of the unwinding itself, so a panic that leaves it ends the process. -/
  | cleanup
  deriving DecidableEq

def Occasion.unwinds : Occasion → Bool
  | .calm => false
  | _ => true

/-- Why the process is ended. -/
inductive Abort
  | violation (found : Violation)
  | panicWhileUnwinding
  deriving DecidableEq

def Abort.message : Abort → String
  | .violation found => s!"parallel cleaning invariant violated: {found.message} - aborting process"
  | .panicWhileUnwinding => "panic in a destructor during cleanup"

end PauseCleanup
