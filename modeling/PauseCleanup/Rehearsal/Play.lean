import PauseCleanup.Rehearsal.Perform
/-!
# Playing a script

The steps of a script are played one after the other, each with the events that it left in the log.
An abort ends the process and with it the rehearsal.
-/
namespace PauseCleanup.Rehearsal

/-- Plays steps inside a callback; `depth` bounds how deep callbacks may call each other through
hooks. -/
def rehearse : Nat → List Step → Play (List Outcome)
  | 0, _ => throw .tooLong
  | depth + 1, steps => steps.mapM (perform (respond (rehearse depth)))

def depthLimit : Nat := 10000

/-- How one step of the script went. -/
structure Report where
  outcome : Except Halt Outcome
  events : List Event
  shuffled : Bool

def playFrom : Stage → List Step → List Report
  | _, [] => []
  | s, step :: rest =>
    let (outcome, s) := (perform (respond (rehearse depthLimit)) step).run.run { s with log := #[] }
    let report := { outcome, events := s.log.toList, shuffled := step.isShuffled }
    match outcome with
    | .ok _ => report :: playFrom s rest
    | .error _ => [report]

/-- Plays a script on a fresh stage, on a thread of the given name. -/
def play (world : World) (name : String) (threads traced : Bool) (steps : List Step) :
    List Report :=
  playFrom
    { world, threads, matched := world.hooks.map fun _ => 0,
      player := { name, recorded := traced } } steps

end PauseCleanup.Rehearsal
