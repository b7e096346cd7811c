import PauseCleanup.Pass.Closing
import PauseCleanup.Rehearsal.Script
import PauseCleanup.Trace.Recorder
/-!
# The stage: all that a rehearsal remembers

Besides the host and what was seen of it, the stage holds the tasks, the ledger of the process and
the thread that is playing. A task that leaves its slot stays where it is, because a call on it may
still be under way.
-/
namespace PauseCleanup.Rehearsal

/-- What a step answers. -/
inductive Value
  | null
  | flag (b : Bool)
  | number (n : Nat)
  | text (s : String)
  | units (us : List UnitId)
  | batch (b : Frontier.Batch)
  | checked (found : Option Violation)
  /-- Metrics; the lost races are told only if they are the same in every run. -/
  | metrics (m : Metrics) (exact : Bool)
  | metricsList (ms : List Metrics) (exact : Bool)
  | totals (t : Totals) (exact : Bool)
  | info (pass : PassId) (workers : UInt32) (unloading : Bool) (name : String)
  | crew (name task : String) (workers : UInt32)
  | counts (unloads cleans : List (UInt64 × Nat)) (table : List (List HeapRef))
  | calls (counts : List (Callback × Nat))

inductive Outcome
  | returned (v : Value)
  | panicked (p : Payload)

inductive Event
  | unload (unit : UnitId) (unloading : Bool) (pass : PassId) (dead : List HeapRef)
  | checkCode
  | cleanTree
  | cleanLinks (cls : ClassId)
  | beginSweep (resize : Bool)
  | endSweep
  | keep (o : HeapRef)
  | unlink (worker : UInt32) (live dead : List HeapRef) (keeps : Bool)
  | releaseMetadata (unloading : Bool)
  | work (worker : UInt32) (thread : String)
  | hook (name : String) (argument : UInt64)
  | hookEnd (results : List Outcome)
  | trace (r : Trace.Record)

/-- A task on the stage. A task that reports adds to the counters of the stage. -/
inductive Object
  | oneShot (flag : OneShot)
  | frontier (f : Frontier)
  | dispenser (d : Dispenser)
  | unloading (plan : Unloading.Plan) (shared : Unloading.Shared) (reports : Bool)
  | classes (shared : ClassCleaning.Shared) (reports : Bool)
  | metadata (present : Bool) (flag : OneShot) (reports : Bool)
  | sweep (s : TableSweep) (reports : Bool)
  | pass (plan : Pass.Plan) (shared : Pass.Shared)

structure Player where
  thread : Thread := ⟨0⟩
  name : String
  unwinding : Nat := 0
  recorded : Bool := false

/-- Counts by number, in increasing order; what was never counted is absent. -/
abbrev Counts := List (UInt64 × Nat)

def Counts.bump : Counts → UInt64 → Counts
  | [], k => [(k, 1)]
  | (j, n) :: rest, k =>
    if k < j then (k, 1) :: (j, n) :: rest
    else if k = j then (j, n + 1) :: rest
    else (j, n) :: Counts.bump rest k

def Counts.get (c : Counts) (k : UInt64) : Nat := (c.lookup k).getD 0

structure Stage where
  world : World
  matched : List Nat := []
  unloads : Counts := []
  cleans : Counts := []
  calls : List Callback := []
  objects : Array Object := #[]
  slots : List (Nat × Nat) := []
  tally : Tally := {}
  ledger : Ledger := {}
  player : Player
  nextThread : Nat := 1
  threads : Bool := true
  exact : Bool := true
  threadPanics : List Panic := []
  recorder : Trace.Recorder := {}
  log : Array Event := #[]

/-- Why a rehearsal stops before its script ends. -/
inductive Halt
  | aborted (reason : Abort)
  | noSuchTask
  | tooLong

/-- Playing changes the stage, and keeps it when it halts. -/
abbrev Play := ExceptT Halt (StateM Stage)

def Play.log (e : Event) : Play Unit := modify fun s => { s with log := s.log.push e }

/-- Puts the records of some notices into the log, if the playing thread is recorded. -/
def Play.note (notices : List Notice) : Play Unit := modify fun s =>
  if s.player.recorded then
    let (records, recorder) := s.recorder.noteAll notices
    { s with recorder, log := s.log ++ (records.map (told s.exact)).toArray }
  else s
where
  told (exact : Bool) (r : Trace.Record) : Event :=
    .trace (if exact then r else r.withhold "claim_retries")

def Play.unwindTo (depth : Nat) : Play Unit := modify fun s =>
  if s.player.recorded then
    let (records, recorder) := s.recorder.unwind depth
    { s with recorder, log := s.log ++ (records.map .trace).toArray }
  else s

/-- Part of the stage that calls of one kind share. -/
structure Cell (Mem : Type) where
  read : Stage → Option Mem
  write : Mem → Stage → Stage

namespace Cell

def empty : Cell Unit := ⟨fun _ => some (), fun _ s => s⟩

def ledger : Cell Ledger := ⟨fun s => some s.ledger, fun l s => { s with ledger := l }⟩

def object {Mem : Type} (id : Nat) (view : Object → Option Mem) (put : Mem → Object → Object) :
    Cell Mem where
  read s := s.objects[id]?.bind view
  write m s := { s with objects := s.objects.modify id (put m) }

/-- The counters that an object reports to: those of the stage, or none that anybody reads. -/
def reporting {Mem : Type} (c : Cell Mem) (reports : Bool) : Cell (Tallied Mem) where
  read s := (c.read s).map fun own => ⟨own, if reports then s.tally else {}⟩
  write m s :=
    let s := c.write m.own s
    if reports then { s with tally := m.tally } else s

def oneShot (id : Nat) : Cell OneShot :=
  object id (fun | .oneShot flag => some flag | _ => none) fun flag _ => .oneShot flag

def frontier (id : Nat) : Cell Frontier :=
  object id (fun | .frontier f => some f | _ => none) fun f _ => .frontier f

def dispenser (id : Nat) : Cell Dispenser :=
  object id (fun | .dispenser d => some d | _ => none) fun d _ => .dispenser d

def unloading (id : Nat) : Cell Unloading.Shared :=
  object id (fun | .unloading _ shared _ => some shared | _ => none) fun
    | shared, .unloading plan _ reports => .unloading plan shared reports
    | _, o => o

def classes (id : Nat) : Cell ClassCleaning.Shared :=
  object id (fun | .classes shared _ => some shared | _ => none) fun
    | shared, .classes _ reports => .classes shared reports
    | _, o => o

def metadata (id : Nat) : Cell OneShot :=
  object id (fun | .metadata _ flag _ => some flag | _ => none) fun
    | flag, .metadata present _ reports => .metadata present flag reports
    | _, o => o

def sweepTally (reports : Bool) : Cell Tally where
  read s := some (if reports then s.tally else {})
  write t s := if reports then { s with tally := t } else s

def pass (id : Nat) : Cell Pass.Shared :=
  object id (fun | .pass _ shared => some shared | _ => none) fun
    | shared, .pass plan _ => .pass plan shared
    | _, o => o

def codeFrontier (id : Nat) : Cell Frontier where
  read s := ((unloading id).read s).map (·.frontier)
  write f s := match (unloading id).read s with
    | some shared => (unloading id).write { shared with frontier := f } s
    | none => s

def treeFlag (id : Nat) : Cell OneShot where
  read s := ((classes id).read s).map (·.tree)
  write flag s := match (classes id).read s with
    | some shared => (classes id).write { shared with tree := flag } s
    | none => s

def estate (id : Nat) : Cell Pass.Estate where
  read s := ((pass id).read s).map fun shared => ⟨shared, s.ledger⟩
  write e s := (pass id).write e.shared { s with ledger := e.ledger }

end Cell

end PauseCleanup.Rehearsal
