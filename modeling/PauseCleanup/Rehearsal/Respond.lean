import PauseCleanup.Rehearsal.Drive
/-!
# The callbacks of the scripted host

A callback does its work and leaves its event in the log; then the hooks have their turn, until one
of them panics. Only after that is the answer taken from the host.
-/
namespace PauseCleanup.Rehearsal

def work : Host.Query → Play Unit
  | .unload u pass unloading => do
    Play.log (.unload u unloading pass ((← get).world.deadInside u))
    modify fun s => { s with unloads := s.unloads.bump u.index }
  | .checkCode => Play.log .checkCode
  | .cleanTree => Play.log .cleanTree
  | .cleanLinks c => do
    Play.log (.cleanLinks c)
    modify fun s => { s with cleans := s.cleans.bump c.index }
  | .beginSweep resize => Play.log (.beginSweep resize)
  | .endSweep => Play.log .endSweep
  | .unlink worker keeps => do
    let w := (← get).world
    let closure : UnlinkClosure := { isAlive := w.isAlive, keeps }
    let (live, dead) := (w.share worker).partition closure.isAlive
    for o in live.foldl closure.keep [] do
      Play.log (.keep o)
    Play.log (.unlink worker live dead keeps)
    modify fun s => { s with world.table := s.world.table.set worker.toNat live }
  | .releaseMetadata unloading => Play.log (.releaseMetadata unloading)
  | _ => return

/-- The first unit that was not unloaded as often as its flag says, looking from number `i` on. -/
def firstFault (unloads : Counts) (i : Nat) : List Bool → Option Violation
  | [] => none
  | alive :: rest =>
    let n := unloads.get (.ofNat i)
    if alive && n == 0 then some (.missed ⟨.ofNat i⟩)
    else if n == alive.toNat then firstFault unloads (i + 1) rest
    else some (.duplicate ⟨.ofNat i⟩ (.ofNat n))

def findings (s : Stage) : Option Violation :=
  match s.world.verdict, s.world.units with
  | .found v, _ => some v
  | .once, .flags alive => firstFault s.unloads 0 alive
  | _, _ => none

/-- The answer to a question as the host stands. -/
def answer (s : Stage) : (q : Host.Query) → Host.Answer q
  | .firstAlive => s.world.units.first
  | .nextAlive u => s.world.units.next u
  | .unload .. => ()
  | .checkCode => findings s
  | .classSource => s.world.source
  | .kindOf c => s.world.kindOf c
  | .cleanTree => ()
  | .cleanLinks _ => ()
  | .tableEnabled => s.world.tableEnabled
  | .beginSweep _ => ()
  | .endSweep => ()
  | .unlink .. => ()
  | .metadataEnabled => s.world.metadataEnabled
  | .releaseMetadata _ => ()

/-- Gives the hooks from number `i` on their turn at a callback; the result is the panic of one, if
any. -/
def runHooks (rehearse : List Step → Play (List Outcome)) (c : Callback) (argument : UInt64)
    (i : Nat) :
    List Hook → Play (Option Payload)
  | [] => return none
  | h :: rest => do
    unless h.fits c argument do
      return ← runHooks rehearse c argument (i + 1) rest
    modify fun s => { s with matched := s.matched.modify i (· + 1) }
    unless h.fires ((← get).matched[i]?.getD 0) do
      return ← runHooks rehearse c argument (i + 1) rest
    match h.act with
    | .panic p => return some p
    | .steps steps =>
      Play.log (.hook c.name argument)
      let results ← rehearse steps
      Play.log (.hookEnd results)
      runHooks rehearse c argument (i + 1) rest

def respond (rehearse : List Step → Play (List Outcome)) (q : Host.Query) :
    Play (Reply (Host.Answer q)) := do
  work q
  let c := Callback.ofQuery q
  modify fun s => { s with calls := c :: s.calls }
  match ← runHooks rehearse c (Callback.argument q) 0 (← get).world.hooks with
  | some p => return .error (.raised p)
  | none => return .ok (answer (← get) q)

end PauseCleanup.Rehearsal
