import PauseCleanup.Pass.Basic
import PauseCleanup.Unloading.Opening
/-!
# Opening a pass

The pass takes its id, opens the sweep of the string table, then the unloading, and asks for the
classes. A panic after the sweep was opened closes the sweep again before the call ends, so its
hooks stay a pair.
-/
namespace PauseCleanup.Pass

structure Request where
  tuning : Tuning
  unloading : Bool
  compiler : Bool
  /-- How many workers the machine runs at once. -/
  machine : UInt32 := 1

def Request.workers (r : Request) : UInt32 := r.tuning.headcount r.machine

/-- The unloading that the pass with this id opens. -/
def Request.unloadingRequest (r : Request) (pass : PassId) : Unloading.Request where
  pass := pass
  unloading := r.unloading
  workers := r.workers
  batch := r.tuning.batch
  verify := r.tuning.verify

inductive Opening
  | start
  | sweep (pass : PassId) (s : TableSweep.Opening)
  | code (pass : PassId) (opened : TableSweep) (s : Unloading.Opening)
  | classes (pass : PassId) (opened : TableSweep) (plan : Unloading.Plan)
      (shared : Unloading.Shared)
  | built (plan : Plan) (shared : Shared)
  | abandon (opened : TableSweep) (s : TableSweep.Closing) (cause : Panic)
  | done (plan : Plan) (shared : Shared)

namespace Opening

/-- Whether the thread unwinds while the call is in this state. -/
def unwinds : Opening → Bool
  | .abandon .. => true
  | _ => false

def move (r : Request) (l : Ledger) : Opening → HostMove Ledger Opening (Plan × Shared)
  | .start =>
    .access l.newPass.2 (.sweep l.newPass.1 .start)
      [.preparing l.newPass.1 r.workers r.unloading r.tuning.batch.val]
  | .sweep pass s =>
    (s.move r.tuning.resize false).lift l (fun _ => l) (.sweep pass)
      fun opened => .access l (.code pass opened .start)
  | .code pass opened s =>
    (s.move (r.unloadingRequest pass)).lift l (fun _ => l) (.code pass opened)
      (fun (plan, shared) => .access l (.classes pass opened plan shared))
      (some (.abandon opened .start))
  | .classes pass opened plan shared =>
    .ask .classSource
      (fun source => .built
        { pass, workers := r.workers, unloading := r.unloading, compiler := r.compiler,
          sweep := opened,
          code := plan }
        { code := shared, classes := { source } })
      (some (.abandon opened .start))
  | .built plan shared =>
    .access l (.done plan shared) [.passOpened plan.pass plan.workers plan.unloading]
  | .abandon opened s cause =>
    (s.move opened true).lift l (fun _ => l) (fun s => .abandon opened s cause) fun _ => .fail cause
  | .done plan shared => .finish (plan, shared)

end Opening

end PauseCleanup.Pass
