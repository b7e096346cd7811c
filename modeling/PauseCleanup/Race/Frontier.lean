import PauseCleanup.Race.Word
import PauseCleanup.Host
/-!
# Frontiers: batches of a sequence that somebody else owns

A frontier is the last unit that was handed out, kept in one word: the unit's index plus one, or 0
when nothing is left. A claim walks on from it by at most so many units, then moves it to the end of
the walk with one exchange; if it has moved meanwhile, the walk is made again.
-/
namespace PauseCleanup

structure Frontier where
  word : UInt64
  deriving DecidableEq

namespace Frontier

/-- The word of a unit, if there is one: the last index of all has no successor. -/
def wordOf (u : UnitId) : Option UInt64 := Word.succ? u.index

def unitOf (word : UInt64) : UnitId := ⟨word - 1⟩

theorem unitOf_of_wordOf {u : UnitId} {w : UInt64} (h : wordOf u = some w) : unitOf w = u := by
  unfold wordOf Word.succ? at h
  split at h
  · cases h
  · cases h
    simp [unitOf]

theorem ne_zero_of_wordOf {u : UnitId} {w : UInt64} (h : wordOf u = some w) : w ≠ 0 := by
  intro e
  have := Word.succ?_eq_some h
  simp [e] at this

/-- A frontier with everything after `first` still to be handed out; with nothing at all, if there
is no first unit. -/
def after : Option UnitId → Option Frontier
  | none => some ⟨0⟩
  | some u => (wordOf u).map Frontier.mk

def isUsedUp (f : Frontier) : Bool := f.word == 0

structure Batch where
  units : List UnitId
  lost : Nat
  deriving DecidableEq

/-- One claim of a batch, after `lost` walks that came to nothing. -/
inductive Claim
  | allocate
  /-- The buffer still holds `stale` units, of an earlier batch or of a walk in vain. -/
  | load (lost : Nat) (stale : List UnitId)
  /-- Walking from the word `seen`: at `mark` now, `taken` on the way (latest first), `room` for
  more. -/
  | walk (lost : Nat) (seen mark : UInt64) (taken : List UnitId) (room : Nat)
  | arrive (lost : Nat) (seen : UInt64) (unit : UnitId) (taken : List UnitId) (room : Nat)
  | exchange (lost : Nat) (seen last : UInt64) (taken : List UnitId)
  | done (batch : Batch)
  deriving DecidableEq

def Claim.start (stale : List UnitId := []) : Claim := .load 0 stale

def Claim.move (max : BatchSize) (f : Frontier) : Claim → HostMove Frontier Claim Batch
  | .allocate => if max.fitsMemory then .access f .start else .fail (.fault .bufferTooLarge)
  | .load lost _ =>
    if f.word = 0 then .access f (.done ⟨[], lost⟩)
    else .access f (.walk lost f.word f.word [] max.val.toNat)
  | .walk lost seen mark taken 0 => .access f (.exchange lost seen mark taken)
  | .walk lost seen mark taken (room + 1) =>
    .ask (.nextAlive (unitOf mark)) fun
      | none => .exchange lost seen 0 taken
      | some u => .arrive lost seen u taken room
  | .arrive lost seen u taken room =>
    match wordOf u with
    | none => .fail (.fault .addOverflow)
    | some mark => .access f (.walk lost seen mark (u :: taken) room)
  | .exchange lost seen last taken =>
    if f.word = seen then .access ⟨last⟩ (.done ⟨taken.reverse, lost⟩)
    else .access f (.load (lost + 1) taken.reverse)
  | .done batch => .finish batch

end Frontier

end PauseCleanup
