import PauseCleanup.Rehearsal.Stage
/-!
# Driving one call to its end

The player makes the moves of one call, one after the other, against the memory as it finds it on
the stage. A callback may play further steps before it answers, and thereby move the memory under
the call.
-/
namespace PauseCleanup.Rehearsal

abbrev Reply (α : Type) := Except Panic α

/-- Plays with one panic more in flight on the thread. -/
def whileUnwinding (unwinds : Bool) (act : Play α) : Play α := do
  if unwinds then
    modify fun s => { s with player.unwinding := s.player.unwinding + 1 }
    let a ← act
    modify fun s => { s with player.unwinding := s.player.unwinding - 1 }
    return a
  else act

variable {Q : Type} {A : Q → Type} {Mem State Result : Type}

/-- Makes at most `fuel` moves from a state. -/
def moves (respond : (q : Q) → Play (Reply (A q))) (cell : Cell Mem)
    (move : Mem → State → Move A Mem State Result) (unwinds : State → Bool) :
    Nat → State → Play (Reply Result)
  | 0, _ => throw .tooLong
  | fuel + 1, state => do
    let some mem := cell.read (← get) | throw .noSuchTask
    match move mem state with
    | .access mem next notices =>
      modify (cell.write mem)
      Play.note notices
      moves respond cell move unwinds fuel next
    | .ask q resume rescue =>
      match ← whileUnwinding (unwinds state) (respond q), rescue with
      | .ok a, _ => moves respond cell move unwinds fuel (resume a)
      | .error cause, some k => moves respond cell move unwinds fuel (k cause)
      | .error cause, none => return .error cause
    | .finish r => return .ok r
    | .fail cause => return .error cause
    | .abort reason => throw (.aborted reason)

def moveLimit : Nat := 1000000000000

/-- One call from its start. If it panics, it leaves the spans it was in. -/
def drive (respond : (q : Q) → Play (Reply (A q))) (cell : Cell Mem)
    (move : Mem → State → Move A Mem State Result) (start : State)
    (unwinds : State → Bool := fun _ => false) : Play (Reply Result) := do
  let depth := (← get).recorder.depth
  let reply ← moves respond cell move unwinds moveLimit start
  if let .error _ := reply then
    Play.unwindTo depth
  return reply

end PauseCleanup.Rehearsal
