import PauseCleanup.Unloading.Basic
/-!
# Opening an unloading

The host is asked for its first alive unit. If the unloading is to be checked, the whole sequence is
walked once and its units are counted.
-/
namespace PauseCleanup.Unloading

structure Request where
  pass : PassId
  unloading : Bool
  workers : UInt32
  batch : BatchSize
  verify : Bool
  hostChecks : Bool := true

inductive Opening
  | start
  | found (first : Option UnitId)
  /-- Counting: `counted` units so far, now at `here`. -/
  | count (first here : Option UnitId) (counted : Nat)
  | build (first : Option UnitId) (expected : Option UInt64)
  | done (plan : Plan) (shared : Shared)

def Opening.move (r : Request) : Opening → HostMove Unit Opening (Plan × Shared)
  | .start => if r.workers < 1 then .fail (.fault .noWorkers) else .ask .firstAlive .found
  | .found first => .access () (if r.verify then .count first first 0 else .build first none)
  | .count first (some u) counted => .ask (.nextAlive u) fun here => .count first here (counted + 1)
  | .count first none counted => .access () (.build first (some (.ofNat counted)))
  | .build first expected =>
    match Frontier.after first with
    | none => .fail (.fault .addOverflow)
    | some frontier =>
      .access () (.done
        { pass := r.pass, unloading := r.unloading, workers := r.workers, batch := r.batch,
          first, expected, hostChecks := r.hostChecks }
        { frontier })
  | .done plan shared => .finish (plan, shared)

end PauseCleanup.Unloading
