import PauseCleanup.Trace.Notice
/-!
# Trace records

A recorder numbers the spans in the order in which they come to be and keeps the stack of those that
its thread is in. A panic leaves them again, innermost first.
-/
namespace PauseCleanup.Trace

inductive Level
  | error
  | warn
  | debug
  | trace
  deriving DecidableEq

def Level.name : Level → String
  | .error => "ERROR"
  | .warn => "WARN"
  | .debug => "DEBUG"
  | .trace => "TRACE"

inductive FieldValue
  | number (n : Nat)
  | flag (b : Bool)
  | text (s : String)
  /-- A value that differs from run to run and is not told. -/
  | withheld
  deriving DecidableEq

abbrev Fields := List (String × FieldValue)

inductive Record
  | span (id : Nat) (level : Level) (name : String) (fields : Fields)
  | enter (id : Nat)
  | exit (id : Nat)
  | close (id : Nat)
  | event (level : Level) (fields : Fields)
  deriving DecidableEq

def Record.withhold (r : Record) (name : String) : Record :=
  match r with
  | .event level fields =>
    .event level (fields.map fun f => if f.1 = name then (name, .withheld) else f)
  | r => r

/-- A span that a thread is in; `closes` tells whether it ends when it is left. -/
structure Open where
  id : Option Nat
  closes : Bool
  deriving DecidableEq

/-- The records of leaving a span. Nothing is recorded of a span that was never recorded itself. -/
def Open.leave (o : Open) : List Record :=
  match o.id with
  | none => []
  | some id => if o.closes then [.exit id, .close id] else [.exit id]

structure Recorder where
  next : Nat := 1
  passes : List (PassId × Nat) := []
  entered : List Open := []
  deriving DecidableEq

namespace Recorder

def depth (r : Recorder) : Nat := r.entered.length

def spanOf (r : Recorder) (pass : PassId) : Option Nat :=
  (r.passes.find? fun e => e.1 = pass).map (·.2)

def enterNew (r : Recorder) (level : Level) (name : String) (fields : Fields) :
    List Record × Recorder :=
  ([.span r.next level name fields, .enter r.next],
    { r with next := r.next + 1, entered := ⟨some r.next, true⟩ :: r.entered })

def leave (r : Recorder) : List Record × Recorder :=
  match r.entered with
  | [] => ([], r)
  | o :: rest => (o.leave, { r with entered := rest })

/-- Leaves spans until only `depth` are entered. -/
def unwind (r : Recorder) (depth : Nat) : List Record × Recorder :=
  let inner := r.entered.take (r.depth - depth)
  (inner.flatMap Open.leave, { r with entered := r.entered.drop (r.depth - depth) })

theorem depth_unwind (r : Recorder) {d : Nat} (h : d ≤ r.depth) : (r.unwind d).2.depth = d := by
  simp only [depth, unwind, List.length_drop] at *
  omega

def event (level : Level) (message : String) (fields : Fields) : Record :=
  .event level (("message", .text message) :: fields)

def note (r : Recorder) : Notice → List Record × Recorder
  | .preparing pass workers unloading batch =>
    ([event .debug "parallel_cleaning_prepare"
      [("pass_id", .number pass.number.toNat), ("num_workers", .number workers.toNat),
        ("unloading_occurred", .flag unloading), ("batch_size", .number batch.toNat)]], r)
  | .passOpened pass workers unloading =>
    ([.span r.next .debug "parallel_cleaning"
      [("pass_id", .number pass.number.toNat), ("num_workers", .number workers.toNat),
        ("unloading_occurred", .flag unloading)]],
      { r with next := r.next + 1, passes := (pass, r.next) :: r.passes })
  | .passEntered pass =>
    let id := r.spanOf pass
    (id.toList.map .enter, { r with entered := ⟨id, false⟩ :: r.entered })
  | .passDone pass units classes retries =>
    ([event .debug "parallel_cleaning_done"
      [("pass_id", .number pass.number.toNat), ("units_unloaded", .number units.toNat),
        ("classes_cleaned", .number classes.toNat), ("claim_retries", .number retries.toNat)]], r)
  | .passClosed pass =>
    ((r.spanOf pass).toList.map .close, { r with passes := r.passes.filter fun e => e.1 ≠ pass })
  | .phaseEntered pass worker phase =>
    r.enterNew .trace "cleaning_phase"
      [("pass_id", .number pass.number.toNat), ("worker_id", .number worker.toNat),
        ("phase", .text phase.name)]
  | .phaseEnded worker phase items =>
    ([event .trace "phase_end"
      [("worker_id", .number worker.toNat), ("phase", .text phase.name),
        ("items", .number items)]], r)
  | .crewEntered crew task workers =>
    r.enterNew .debug "gang_task"
      [("gang", .text crew), ("task", .text task), ("workers", .number workers.toNat)]
  | .spawnFailed worker =>
    ([event .warn "spawn failed, running worker inline" [("worker_id", .number worker.toNat)]], r)
  | .passLeft | .phaseLeft | .crewLeft => r.leave
  | .violated found =>
    ([event .error "parallel cleaning invariant violated" [("violation", .text found.message)]], r)

def noteAll (r : Recorder) (notices : List Notice) : List Record × Recorder :=
  notices.foldl (fun (done, r) n => let (records, r) := r.note n; (done ++ records, r)) ([], r)

end Recorder

end PauseCleanup.Trace
