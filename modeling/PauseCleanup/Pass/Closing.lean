import PauseCleanup.Pass.Basic
import PauseCleanup.Unloading.Closing
/-!
# Closing a pass

The numbers of the pass go into the ledger first. Then the unloading is checked, and last the sweep
of the string table is closed, also when the check panicked. A failed check aborts the process
before that.
-/
namespace PauseCleanup.Pass

/-- What a closing works on: the pass and the ledger of the process. -/
structure Estate where
  shared : Shared
  ledger : Ledger

inductive Closing
  | start
  | record (numbers : Metrics) (s : Ledger.Record)
  | check (s : Unloading.Closing)
  | sweep (s : TableSweep.Closing) (raised : Option Panic)
  | leave (raised : Option Panic)
  | done (raised : Option Panic)

namespace Closing

/-- Whether the thread unwinds while the call is in this state, because of a panic of this call. -/
def unwinds : Closing → Bool
  | .sweep _ raised => raised.isSome
  | _ => false

def move (p : Plan) (t : Thread) (o : Occasion) (e : Estate) :
    Closing → HostMove Estate Closing Unit
  | .start =>
    let numbers := metrics p e.shared
    .access e (.record numbers .last)
      [.passEntered p.pass,
        .passDone p.pass numbers.counts.units numbers.counts.cleaned numbers.counts.retries]
  | .record numbers s =>
    (s.move t numbers e.ledger).lift e (fun l => { e with ledger := l }) (.record numbers)
      fun _ => .access e (.check .start) [.passLeft]
  | .check s =>
    (s.move p.code o.unwinds e.shared.code).lift e (fun c => { e with shared.code := c }) .check
      (fun _ => .access e (.sweep .start none))
      (some fun cause => .sweep .start (some cause))
  | .sweep s raised =>
    (s.move p.sweep (o == .cleanup || raised.isSome)).lift e (fun _ => e) (fun s => .sweep s raised)
      (fun _ => .access e (.leave raised)) (some fun cause => .leave (some cause))
  | .leave raised => .access e (.done raised) [.passClosed p.pass]
  | .done none => .finish ()
  | .done (some cause) => .fail cause

end Closing

end PauseCleanup.Pass
