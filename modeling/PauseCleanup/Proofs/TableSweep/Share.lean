import PauseCleanup.Proofs.Chores
import PauseCleanup.TableSweep
/-!
# What a worker of a table sweep ensures

A worker of an open sweep has one share of the table to unlink, its own, if the table was in use
when the sweep was opened.
-/
namespace PauseCleanup.TableSweep

open Host (Query Answer)

/-- What a worker has to ask for its share. -/
def share (s : TableSweep) (id : UInt32) : Multiset Query :=
  if s.enabled then {.unlink id s.keeps} else 0

namespace Worker

variable {may : Reply Answer → Prop}

def Knows (may : Reply Answer → Prop) : Progress Worker Unit → Prop
  | .panicked _ => MayPanic may
  | _ => True

def owes (s : TableSweep) : Progress Worker Unit → Multiset Query
  | .running (.start id) => s.share id
  | _ => 0

theorem move_ensures (s : TableSweep) (t : Tally) (w : Worker) : (w.move s t).Ensures may
    (fun _ c l => Knows may c ∧ owes s c + chores l = owes s (.running w)) t := by
  cases w with
  | start id =>
    simp only [move]
    split
    · next h =>
      have hshare : s.share id = {.unlink id s.keeps} := by rw [share, if_pos h]
      intro a ha
      cases a with
      | error cause => exact ⟨⟨_, _, ha⟩, hshare.symm⟩
      | ok a => exact ⟨trivial, hshare.symm⟩
    · next h => exact ⟨trivial, by simp [owes, share, h]⟩
  | unlinked => exact ⟨trivial, rfl⟩
  | done => exact ⟨trivial, rfl⟩

end Worker

end PauseCleanup.TableSweep
