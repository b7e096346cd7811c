import PauseCleanup.Pass.Opening
import PauseCleanup.Pass.Worker
import PauseCleanup.Rehearsal.Respond
/-!
# The steps of a script

Each step is one call of the library, driven to its end, or a look at the stage.
-/
namespace PauseCleanup.Rehearsal

def Outcome.ofReply (f : α → Value) : Reply α → Outcome
  | .ok a => .returned (f a)
  | .error cause => .panicked cause.payload

def Value.ofUnit? (u : Option UnitId) : Value := u.elim .null fun u => .number u.index.toNat

def Value.ofClass? (c : Option ClassId) : Value := c.elim .null fun c => .number c.index.toNat

def taskIn (slot : Nat) : Play (Nat × Object) := do
  let s ← get
  let some id := s.slots.lookup slot | throw .noSuchTask
  let some o := s.objects[id]? | throw .noSuchTask
  return (id, o)

def place (slot : Nat) (o : Object) : Play Unit := modify fun s =>
  { s with objects := s.objects.push o, slots := (slot, s.objects.size) :: s.slots }

def clear (slot : Nat) : Play Unit :=
  modify fun s => { s with slots := s.slots.filter fun e => e.1 ≠ slot }

def onThread (name : String) (act : Play α) : Play α := do
  let before := (← get).player
  modify fun s =>
    { s with player := { thread := ⟨s.nextThread⟩, name }, nextThread := s.nextThread + 1 }
  let a ← act
  modify fun s => { s with player := before }
  return a

/-- What a crew finds: threads, if there are any, run their worker to its end at once. -/
def crewRespond (crew : Crew) (work : UInt32 → Play (Reply Unit)) :
    (q : Crew.Query) → Play (Reply (Crew.Answer q))
  | .spawn id => do
    unless (← get).threads do
      return .ok false
    if let .error cause ← onThread (crew.threadName id) (work id) then
      modify fun s => { s with threadPanics := s.threadPanics ++ [cause] }
    return .ok true
  | .work id => work id
  | .join => return .ok (← get).threadPanics

def runCrew (crew : Crew) (task : String) (work : UInt32 → Play (Reply Unit)) : Play Outcome := do
  let before := (← get).threadPanics
  modify fun s => { s with threadPanics := [] }
  let reply ← drive (crewRespond crew work) Cell.empty (fun _ => Crew.Run.move crew task) .start
  modify fun s => { s with threadPanics := before }
  return .ofReply (fun _ => .crew crew.name task crew.workers) reply

/-- The work that only leaves a record, and panics with the first payload listed for the worker. -/
def recordWork (panics : List (UInt32 × Payload)) (id : UInt32) : Play (Reply Unit) := do
  Play.log (.work id (← get).player.name)
  return (panics.lookup id).elim (.ok ()) fun p => .error (.raised p)

section

variable (respond : (q : Host.Query) → Play (Reply (Host.Answer q)))

def openTask : Task → Play (Reply Object)
  | .oneShot => return .ok (.oneShot {})
  | .frontier start =>
    return (Frontier.after start).elim (.error (.fault .addOverflow)) fun f => .ok (.frontier f)
  | .dispenser size => return .ok (.dispenser { size })
  | .unloading workers unloading batch verify pass reports hostChecks => do
    let request := { pass, unloading, workers, batch, verify, hostChecks }
    let reply ← drive respond Cell.empty (fun _ => Unloading.Opening.move request) .start
    return reply.map fun (plan, shared) => .unloading plan shared reports
  | .classes reports => do
    return (← respond .classSource).map fun source => .classes { source } reports
  | .metadata present reports => return .ok (.metadata present {} reports)
  | .sweep resize keeps reports => do
    let reply ← drive respond Cell.empty (fun _ => TableSweep.Opening.move resize keeps) .start
    return reply.map (.sweep · reports)
  | .pass tuning unloading compiler => do
    let request := { tuning, unloading, compiler }
    let reply ← drive respond Cell.ledger (Pass.Opening.move request) .start Pass.Opening.unwinds
    return reply.map fun (plan, shared) => .pass plan shared

/-- One worker's share of a task. -/
def share (id : Nat) (worker : UInt32) (unloading : Bool) : Object → Play (Reply Value)
  | .unloading plan _ reports => do
    let reply ← drive respond ((Cell.unloading id).reporting reports) (Unloading.Worker.move plan)
      (.start worker)
    return reply.map .number
  | .classes _ reports => do
    let reply ← drive respond ((Cell.classes id).reporting reports) ClassCleaning.Worker.move .start
    return reply.map .number
  | .metadata present _ reports => do
    let reply ← drive respond ((Cell.metadata id).reporting reports)
      (MetadataRelease.Worker.move present unloading) .start
    return reply.map .flag
  | .sweep s reports => do
    let reply ← drive respond (Cell.sweepTally reports) (TableSweep.Worker.move s) (.start worker)
    return reply.map fun _ => .null
  | .pass plan _ => do
    let reply ← drive respond (Cell.pass id) (Pass.Worker.move plan) (.start worker)
    return reply.map fun _ => .null
  | _ => throw .noSuchTask

def closeTask (occasion : Occasion) (id : Nat) : Object → Play (Reply Unit)
  | .unloading plan _ _ =>
    drive respond (Cell.unloading id) (Unloading.Closing.move plan occasion.unwinds) .start
  | .sweep s _ =>
    drive respond Cell.empty (fun _ => TableSweep.Closing.move s (occasion == .cleanup)) .start
  | .pass plan _ => do
    drive respond (Cell.estate id) (Pass.Closing.move plan (← get).player.thread occasion) .start
      Pass.Closing.unwinds
  | _ => return .ok ()

/-- Closes a task as a step does, which catches every panic. -/
def closeCaught (id : Nat) (o : Object) : Play Outcome := do
  let occasion := if (← get).player.unwinding = 0 then .calm else .sheltered
  return .ofReply (fun _ => .null) (← closeTask respond occasion id o)

/-- Opens a task into a slot. Once it is there, the task that it replaces is closed. -/
def renew (slot : Nat) (task : Task) : Play Outcome := do
  match ← openTask respond task with
  | .error cause => return .panicked cause.payload
  | .ok o =>
    let s ← get
    place slot o
    match s.slots.lookup slot with
    | none => return .returned .null
    | some id =>
      let some old := s.objects[id]? | throw .noSuchTask
      closeCaught respond id old

def tryFlag (cell : Cell OneShot) : Play Outcome := do
  return .ofReply .flag (← drive respond cell OneShot.Try.move .look)

def taskName : Object → Play String
  | .sweep .. => return TableSweep.taskName
  | .pass .. => return Pass.taskName
  | _ => throw .noSuchTask

/-- One step of a script. -/
def perform : Step → Play Outcome
  | .new slot task => renew respond slot task
  | .tryClaim slot => do tryFlag respond (Cell.oneShot (← taskIn slot).1)
  | .isClaimed slot => do
    let (_, .oneShot flag) ← taskIn slot | throw .noSuchTask
    return .returned (.flag flag.taken)
  | .next slot => do
    let (id, _) ← taskIn slot
    let reply ← drive respond (Cell.dispenser id) (fun d => Dispenser.Take.move d) .load
    return .ofReply (fun n => n.elim .null fun n => .number n.toNat) reply
  | .remaining slot => do
    let (_, .dispenser d) ← taskIn slot | throw .noSuchTask
    return .ofReply (fun n => .number n.toNat) (d.left.mapError .fault)
  | .claim slot max => do
    let (id, _) ← taskIn slot
    let reply ← drive respond (Cell.frontier id) (Frontier.Claim.move max) .allocate
    return .ofReply (fun b => .units b.units) reply
  | .claimInto slot max stale => do
    match ← taskIn slot with
    | (id, .unloading plan _ _) =>
      return .ofReply .batch
        (← drive respond (Cell.codeFrontier id) (Frontier.Claim.move plan.batch) (.start stale))
    | (id, _) =>
      return .ofReply .batch
        (← drive respond (Cell.frontier id) (Frontier.Claim.move max) (.start stale))
  | .isExhausted slot => do
    let (_, .frontier f) ← taskIn slot | throw .noSuchTask
    return .returned (.flag f.isUsedUp)
  | .first slot => do
    let (_, .unloading plan _ _) ← taskIn slot | throw .noSuchTask
    return .returned (.ofUnit? plan.first)
  | .run slot worker unloading => do
    let (id, o) ← taskIn slot
    return .ofReply (·) (← share respond id worker unloading o)
  | .units slot => do
    let (_, .unloading _ shared _) ← taskIn slot | throw .noSuchTask
    return .returned (.number shared.unloaded.toNat)
  | .verify slot => do
    let (id, .unloading plan _ _) ← taskIn slot | throw .noSuchTask
    return .ofReply .checked
      (← drive respond (Cell.unloading id) (Unloading.Check.move plan) .start)
  | .claimTree slot => do tryFlag respond (Cell.treeFlag (← taskIn slot).1)
  | .claimClass slot => do
    let (id, .classes _ reports) ← taskIn slot | throw .noSuchTask
    return .ofReply .ofClass?
      (← drive respond ((Cell.classes id).reporting reports) ClassCleaning.Pick.move .start)
  | .claimMetadata slot => do tryFlag respond (Cell.metadata (← taskIn slot).1)
  | .isEnabled slot => do
    let (_, .sweep s _) ← taskIn slot | throw .noSuchTask
    return .returned (.flag s.enabled)
  | .name slot => do return .returned (.text (← taskName (← taskIn slot).2))
  | .metrics slot => do
    let (_, .pass plan shared) ← taskIn slot | throw .noSuchTask
    return .returned (.metrics (Pass.metrics plan shared) (← get).exact)
  | .info slot => do
    let (_, .pass plan _) ← taskIn slot | throw .noSuchTask
    return .returned (.info plan.pass plan.workers plan.unloading Pass.taskName)
  | .crew slot crew => do
    let (id, o) ← taskIn slot
    let name ← taskName o
    modify fun s => { s with exact := s.exact && crew.workers ≤ 1 }
    runCrew crew name fun worker => do
      return (← share respond id worker false o).map fun _ => ()
  | .crewRecord crew panics => runCrew crew "Recorder" (recordWork panics)
  | .close slot => do
    let (id, o) ← taskIn slot
    clear slot
    closeCaught respond id o
  | .forget slot => do
    clear slot
    return .returned .null
  | .unwind slot => do
    let (id, o) ← taskIn slot
    clear slot
    let _ ← whileUnwinding true (closeTask respond .cleanup id o)
    return .panicked (.text "unwinding")
  | .change c => do
    modify fun s => { s with world := s.world.change c }
    return .returned .null
  | .counts => do
    let s ← get
    return .returned (.counts s.unloads s.cleans s.world.table)
  | .calls => do
    let s ← get
    return .returned
      (.calls ((Callback.all.map fun c => (c, s.calls.count c)).filter fun e => e.2 != 0))
  | .snapshot pass unloading => do
    let s ← get
    return .returned (.metrics (s.tally.read pass unloading) s.exact)
  | .last => do
    let s ← get
    return .returned (.metrics (s.ledger.lastOf s.player.thread) s.exact)
  | .recent n => do
    let s ← get
    return .returned (.metricsList (s.ledger.recent n) s.exact)
  | .totals => do
    let s ← get
    return .returned (.totals s.ledger.totals s.exact)
  | .nextPass => do
    let (pass, ledger) := (← get).ledger.newPass
    modify fun s => { s with ledger }
    return .returned (.number pass.number.toNat)

end

end PauseCleanup.Rehearsal
