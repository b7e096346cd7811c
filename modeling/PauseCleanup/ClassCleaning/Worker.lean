import PauseCleanup.ClassCleaning.Source
import PauseCleanup.Race.OneShot
import PauseCleanup.Tally
/-!
# Class cleaning

One worker rebuilds the subclass tree; all of them draw classes and clean the links of the instance
classes among them. Skipped classes are counted when a search ends, cleaned ones when the worker
ends.
-/
namespace PauseCleanup.ClassCleaning

structure Shared where
  tree : OneShot := {}
  source : ClassSource

/-- The search for the next instance class. -/
inductive Pick
  | draw (skipped : Nat) (d : ClassSource.Draw)
  | kind (skipped : Nat) (cls : ClassId)
  | settle (skipped : Nat) (cls : Option ClassId)
  | done (cls : Option ClassId)

namespace Pick

def start : Pick := .draw 0 .start

def move (m : Tallied Shared) : Pick → HostMove (Tallied Shared) Pick (Option ClassId)
  | .draw skipped d =>
    (d.move m.own.source).lift m (fun s => { m with own.source := s }) (.draw skipped)
      fun
        | some c => .access m (.kind skipped c)
        | none => .access m (.settle skipped none)
  | .kind skipped c =>
    .ask (.kindOf c) fun k =>
      if k.isInstance then .settle skipped (some c) else .draw (skipped + 1) .start
  | .settle skipped cls =>
    .access { m with tally.skipped := m.tally.skipped + .ofNat skipped } (.done cls)
  | .done cls => .finish cls

end Pick

/-- One worker's share; the result is the number of classes that it cleaned. -/
inductive Worker
  | tree (attempt : OneShot.Try)
  | rebuild
  | rebuilt
  | pick (cleaned : Nat) (p : Pick)
  | clean (cleaned : Nat) (cls : ClassId)
  | report (cleaned : Nat)
  | done (cleaned : Nat)

namespace Worker

def start : Worker := .tree .look

def move (m : Tallied Shared) : Worker → HostMove (Tallied Shared) Worker Nat
  | .tree attempt =>
    (attempt.move m.own.tree).lift m (fun flag => { m with own.tree := flag }) .tree
      fun won => .access m (if won then .rebuild else .pick 0 .start)
  | .rebuild => .ask .cleanTree fun _ => .rebuilt
  | .rebuilt => .access { m with tally.treeRebuilt := true } (.pick 0 .start)
  | .pick cleaned p =>
    (p.move m).lift m id (.pick cleaned)
      fun
        | some c => .access m (.clean cleaned c)
        | none => .access m (.report cleaned)
  | .clean cleaned c => .ask (.cleanLinks c) fun _ => .pick (cleaned + 1) .start
  | .report cleaned =>
    .access { m with tally.cleaned := m.tally.cleaned + .ofNat cleaned } (.done cleaned)
  | .done cleaned => .finish cleaned

end Worker

end PauseCleanup.ClassCleaning
