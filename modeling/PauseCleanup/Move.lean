import PauseCleanup.Panic
import PauseCleanup.Trace.Notice
/-!
# Calls as machines over a shared memory

A call is a machine: a state of its own, and a function `move` that says what it does next when it
finds the shared memory as it is now. One move is one atomic step. `Move.lift` embeds a machine in
another that works on more memory.
-/
namespace PauseCleanup

/-- What a call does next. `A q` is the type of the answers to the question `q`. -/
inductive Move {Q : Type} (A : Q → Type) (Mem State Result : Type) where
  /-- One access to the shared memory (or a step of the call's own that leaves the memory alone). -/
  | access (mem : Mem) (next : State) (notices : List Notice := [])
  /-- A callback. It may panic: then the call ends with that panic, unless it says how to go on. -/
  | ask (question : Q) (resume : A question → State) (rescue : Option (Panic → State) := none)
  | finish (result : Result)
  | fail (cause : Panic)
  | abort (reason : Abort)

namespace Move

variable {Q : Type} {A : Q → Type} {Sub SubState SubResult Mem State Result : Type}

/-- A move of an embedded machine as a move of the machine around it: `put` writes the part of the
memory back, `finished` takes over from the inner result and `rescue`, if given, from an inner
panic. -/
def lift (inner : Move A Sub SubState SubResult) (mem : Mem) (put : Sub → Mem)
    (wrap : SubState → State) (finished : SubResult → Move A Mem State Result)
    (rescue : Option (Panic → State) := none) : Move A Mem State Result :=
  match inner with
  | .access sub next notices => .access (put sub) (wrap next) notices
  | .ask q resume own =>
    .ask q (fun a => wrap (resume a)) (own.elim rescue fun k => some fun cause => wrap (k cause))
  | .finish r => finished r
  | .fail cause => rescue.elim (.fail cause) fun k => .access mem (k cause)
  | .abort reason => .abort reason

section lift

variable (mem : Mem) (put : Sub → Mem) (wrap : SubState → State)
  (finished : SubResult → Move A Mem State Result) (rescue : Option (Panic → State))

@[simp] theorem lift_access (sub : Sub) (next : SubState) (notices : List Notice) :
    (Move.access sub next notices : Move A Sub SubState SubResult).lift mem put wrap finished
        rescue =
      .access (put sub) (wrap next) notices := rfl

@[simp] theorem lift_ask (q : Q) (resume : A q → SubState) :
    (Move.ask q resume none : Move A Sub SubState SubResult).lift mem put wrap finished rescue =
      .ask q (fun a => wrap (resume a)) rescue := rfl

@[simp] theorem lift_finish (r : SubResult) :
    (Move.finish r : Move A Sub SubState SubResult).lift mem put wrap finished rescue =
      finished r := rfl

@[simp] theorem lift_fail (cause : Panic) :
    (Move.fail cause : Move A Sub SubState SubResult).lift mem put wrap finished none =
      .fail cause := rfl

@[simp] theorem lift_abort (reason : Abort) :
    (Move.abort reason : Move A Sub SubState SubResult).lift mem put wrap finished rescue =
      .abort reason := rfl

end lift

end Move

end PauseCleanup
