import PauseCleanup.Crew
import PauseCleanup.Pool
/-!
# A crew at work

The calling thread and the threads of the workers move in any order. A worker with a thread moves by
itself; one without moves when the calling thread has come to it.
-/
namespace PauseCleanup.Crew

structure Shift {Q : Type} (A : Q → Type) (Mem State : Type) where
  caller : Progress Run Unit := .running .start
  work : Pool UInt32 A Mem State Unit
  threads : List UInt32 := []

namespace Shift

variable {Q : Type} {A : Q → Type} {Mem State : Type}

/-- Who moves: a worker on its thread, or (`none`) the calling thread. -/
abbrev ShiftTurn (A : Q → Type) := Turn (Option UInt32) A

/-- What the threads have panicked with, in the order of their workers. -/
def panics (s : Shift A Mem State) : List Panic :=
  s.threads.filterMap fun id => match s.work.calls id with
    | .panicked cause => some cause
    | _ => none

def allJoined (s : Shift A Mem State) : Bool := s.threads.all fun id => (s.work.calls id).isOver

variable (c : Crew) (task : String) (hasThread : UInt32 → Bool)
  (move : UInt32 → Mem → State → Move A Mem State Unit)

def callerTurn (s : Shift A Mem State) (answer : (q : Q) → Except Panic (A q)) :
    Shift A Mem State :=
  match s.caller with
  | .running r =>
    match r.move c task with
    | .access _ next _ => { s with caller := .running next }
    | .ask (.spawn id) resume _ =>
      { s with
        caller := .running (resume (hasThread id))
        threads := if hasThread id then s.threads ++ [id] else s.threads }
    | .ask (.work id) resume rescue =>
      match s.work.calls id with
      | .running _ => { s with work := s.work.turn move ⟨id, answer⟩ }
      | .returned u => { s with caller := Pool.resumed (q := Query.work id) resume rescue (.ok u) }
      | .panicked cause =>
        { s with caller := Pool.resumed (q := Query.work id) resume rescue (.error cause) }
    | .ask .join resume _ =>
      if s.allJoined then { s with caller := .running (resume s.panics) } else s
    | .finish u => { s with caller := .returned u }
    | .fail cause => { s with caller := .panicked cause }
    | .abort _ => s
  | _ => s

def turn (s : Shift A Mem State) (t : ShiftTurn A) : Shift A Mem State :=
  match t.caller with
  | none => s.callerTurn c task hasThread move t.answer
  | some id => if id ∈ s.threads then { s with work := s.work.turn move ⟨id, t.answer⟩ } else s

/-- An interleaving of the calling thread and the threads of the workers. -/
def run (s : Shift A Mem State) (turns : List (ShiftTurn A)) : Shift A Mem State :=
  turns.foldl (turn c task hasThread move) s

end Shift

end PauseCleanup.Crew
