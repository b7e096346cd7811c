import PauseCleanup.Race.Word
import PauseCleanup.Move
/-!
# Dispensers: the numbers below a bound, one at a time

A shared counter `next` that runs from 0 up to `size` and hands out each number on its way. The
counter moves by compare-and-exchange and stops at `size`, so a late caller cannot push it past its
bound.
-/
namespace PauseCleanup

structure Dispenser where
  size : UInt64
  next : UInt64 := 0
  deriving DecidableEq

namespace Dispenser

def left (d : Dispenser) : Except Fault UInt64 :=
  if d.next ≤ d.size then .ok (d.size - d.next) else .error .subtractOverflow

/-- One request for a number. -/
inductive Take
  | load
  | exchange (seen : UInt64)
  | done (number : Option UInt64)
  deriving DecidableEq

variable {Q : Type} {A : Q → Type}

/-- A failed exchange goes on from the value that it found. The exchange may also fail for no reason
at all (`spurious`), and then has found the value it expected. -/
def Take.move (d : Dispenser) (spurious : Bool := false) :
    Take → Move A Dispenser Take (Option UInt64)
  | .load => .access d (.exchange d.next)
  | .exchange seen =>
    if d.size ≤ seen then .access d (.done none)
    else match Word.succ? seen with
      | none => .fail (.fault .addOverflow)
      | some after =>
        if seen = d.next ∧ spurious = false then
          .access { d with next := after } (.done (some seen))
        else .access d (.exchange d.next)
  | .done number => .finish number

@[simp] theorem Take.move_load (d : Dispenser) (spurious : Bool) :
    (Take.load.move d spurious : Move A _ _ _) = .access d (.exchange d.next) := rfl

@[simp] theorem Take.move_done (d : Dispenser) (spurious : Bool) (number : Option UInt64) :
    ((Take.done number).move d spurious : Move A _ _ _) = .finish number := rfl

end Dispenser

end PauseCleanup
