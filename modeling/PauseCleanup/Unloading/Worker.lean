import PauseCleanup.Unloading.Basic
/-!
# One worker's share of an unloading

Worker 0 first tries to win the first unit. Then every worker claims one batch after the other and
unloads its units in order, until it brings home an empty one. The result is the number of units
that this call unloaded.
-/
namespace PauseCleanup.Unloading

inductive Worker
  | start (id : UInt32)
  | enter (id : UInt32)
  | first (unit : UnitId) (attempt : OneShot.Try)
  | buffer (total : Nat)
  | claim (total : Nat) (attempt : Frontier.Claim)
  | batch (total : Nat) (units : List UnitId)
  /-- Units left to be unloaded; `opened` tells whether the buffer for batches is there. -/
  | unload (total : Nat) (units : List UnitId) (opened : Bool)
  /-- The head unit was unloaded, but is counted nowhere yet. -/
  | count (total : Nat) (units : List UnitId) (opened : Bool)
  /-- It is counted by the unloading, not yet by the tally. -/
  | tally (total : Nat) (units : List UnitId) (opened : Bool)
  | done (total : Nat)

namespace Worker

def afterEnter (p : Plan) (id : UInt32) : Worker :=
  match p.first with
  | some u => if id = 0 then .first u .look else .buffer 0
  | none => .buffer 0

def move (p : Plan) (m : Tallied Shared) : Worker → HostMove (Tallied Shared) Worker Nat
  | .start id =>
    if id < p.workers then .access m (.enter id)
    else .fail (.fault (.workerOutOfRange id p.workers))
  | .enter id => .access { m with own.entered := m.own.entered + 1 } (afterEnter p id)
  | .first u attempt =>
    (attempt.move m.own.first).lift m (fun flag => { m with own.first := flag }) (.first u)
      fun won => .access m (if won then .unload 0 [u] false else .buffer 0)
  | .buffer total =>
    if p.batch.fitsMemory then .access m (.claim total .start) else .fail (.fault .bufferTooLarge)
  | .claim total attempt =>
    (attempt.move p.batch m.own.frontier).lift m (fun f => { m with own.frontier := f })
      (.claim total)
      fun b => .access { m with tally.retries := m.tally.retries + .ofNat b.lost }
        (if b.units = [] then .done total else .batch total b.units)
  | .batch total units =>
    .access { m with tally.batches := m.tally.batches + 1 } (.unload total units true)
  | .unload total [] opened => .access m (if opened then .claim total .start else .buffer total)
  | .unload total (u :: units) opened =>
    .ask (.unload u p.pass p.unloading) fun _ => .count total (u :: units) opened
  | .count total units opened =>
    .access { m with own.unloaded := m.own.unloaded + 1 } (.tally total units opened)
  | .tally total units opened =>
    .access { m with tally.units := m.tally.units + 1 } (.unload (total + 1) units.tail opened)
  | .done total => .finish total

end Worker

end PauseCleanup.Unloading
