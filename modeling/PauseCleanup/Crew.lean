import PauseCleanup.Move
import PauseCleanup.Tuning
/-!
# Crews

A crew runs a task on one fresh thread per worker and waits for all of them. A worker for which no
thread can be had runs on the calling thread, after all threads were asked for. The crew panics with
the payload of one worker: that of the calling thread, else that of the lowest worker.
-/
namespace PauseCleanup

structure Crew where
  name : String
  workers : UInt32
  deriving DecidableEq

namespace Crew

/-- A crew of `n` workers, but at least one. -/
def ofSize (name : String) (n : UInt32) : Crew := ⟨name, Tuning.atLeastOne n⟩

def ofTuning (name : String) (t : Tuning) (machine : UInt32) : Crew :=
  ofSize name (t.headcount machine)

def threadName (c : Crew) (id : UInt32) : String := s!"{c.name}#{id}"

/-- What a crew asks for while it runs a task. -/
inductive Query
  | spawn (id : UInt32)
  | work (id : UInt32)
  /-- The end of all threads; the answer is what they panicked with, in the workers' order. -/
  | join
  deriving DecidableEq

abbrev Answer : Query → Type
  | .spawn _ => Bool
  | .work _ => Unit
  | .join => List Panic

inductive Run
  | start
  | spawn (next : UInt32) (spare : List UInt32)
  | noThread (id : UInt32) (spare : List UInt32)
  /-- The workers without a thread take their turns on the calling one. -/
  | onCaller (rest : List UInt32)
  | join (raised : Option Panic)
  | ended (raised : Option Panic)
  | done

/-- Workers without a thread wait in `spare`, in order. The first of them to panic is the last to
run. -/
def Run.move (c : Crew) (task : String) : Run → Move Answer Unit Run Unit
  | .start => .access () (.spawn 0 []) [.crewEntered c.name task c.workers]
  | .spawn next spare =>
    if next < c.workers then
      if c.name.contains '\x00' then .fail (.fault (.zeroInThreadName (c.threadName next)))
      else .ask (.spawn next) fun ok => if ok then .spawn (next + 1) spare else .noThread next spare
    else .access () (.onCaller spare)
  | .noThread id spare => .access () (.spawn (id + 1) (spare ++ [id])) [.spawnFailed id]
  | .onCaller [] => .access () (.join none)
  | .onCaller (id :: rest) =>
    .ask (.work id) (fun _ => .onCaller rest) (some fun cause => .join (some cause))
  | .join raised => .ask .join fun panics => .ended (raised.or panics.head?)
  | .ended none => .access () .done [.crewLeft]
  | .ended (some cause) => .fail cause
  | .done => .finish ()

end Crew

end PauseCleanup
