import PauseCleanup.Pass.Basic
import PauseCleanup.Unloading.Worker
/-!
# One worker's share of a pass

The phases come in a fixed order and no worker waits for another: metadata, code, table, and classes
if any were unloaded. A panic in one phase ends the call.
-/
namespace PauseCleanup.Pass

inductive Worker
  | start (id : UInt32)
  | enter (id : UInt32)
  | metadata (id : UInt32) (s : MetadataRelease.Worker)
  | code (id : UInt32) (s : Unloading.Worker)
  | table (id : UInt32) (s : TableSweep.Worker)
  | classes (id : UInt32) (s : ClassCleaning.Worker)
  | done

namespace Worker

def move (p : Plan) (m : Shared) : Worker → HostMove Shared Worker Unit
  | .start id =>
    if id < p.workers then .access m (.enter id)
    else .fail (.fault (.workerOutOfRange id p.workers))
  | .enter id =>
    .access { m with tally.workers := m.tally.workers + 1 } (.metadata id .start)
      [.passEntered p.pass, .phaseEntered p.pass id .metadata]
  | .metadata id s =>
    (s.move p.compiler p.unloading m.metadataPart).lift m m.putMetadata (.metadata id)
      fun ran => .access m (.code id (.start id))
        [.phaseEnded id .metadata ran.toNat, .phaseLeft, .phaseEntered p.pass id .code]
  | .code id s =>
    (s.move p.code m.codePart).lift m m.putCode (.code id)
      fun units => .access m (.table id (.start id))
        [.phaseEnded id .code units, .phaseLeft, .phaseEntered p.pass id .table]
  | .table id s =>
    (s.move p.sweep m.tally).lift m (fun t => { m with tally := t }) (.table id)
      fun _ =>
        if p.unloading then
          .access m (.classes id .start) [.phaseLeft, .phaseEntered p.pass id .classes]
        else .access m .done [.phaseLeft, .passLeft]
  | .classes id s =>
    (s.move m.classPart).lift m m.putClasses (.classes id)
      fun cleaned => .access m .done [.phaseEnded id .classes cleaned, .phaseLeft, .passLeft]
  | .done => .finish ()

end Worker

end PauseCleanup.Pass
