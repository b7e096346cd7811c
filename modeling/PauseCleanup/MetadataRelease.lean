import PauseCleanup.Race.OneShot
import PauseCleanup.Host
import PauseCleanup.Tally
/-!
# Release of compiler metadata

A host with a compiler has handles to release after classes were unloaded. One worker does it: the
one that wins the flag, for which only those try that find classes unloaded and the compiler
switched on.
-/
namespace PauseCleanup.MetadataRelease

/-- One worker's share; the result tells whether this call released the metadata. -/
inductive Worker
  | start
  | claim (attempt : OneShot.Try)
  | release
  | released
  | done (ran : Bool)

namespace Worker

def move (present unloading : Bool) (m : Tallied OneShot) :
    Worker → HostMove (Tallied OneShot) Worker Bool
  | .start =>
    if unloading && present then
      .ask .metadataEnabled fun enabled => if enabled then .claim .look else .done false
    else .access m (.done false)
  | .claim attempt =>
    (attempt.move m.own).lift m (fun flag => { m with own := flag }) .claim
      fun won => .access m (if won then .release else .done false)
  | .release => .ask (.releaseMetadata unloading) fun _ => .released
  | .released => .access { m with tally.metadataReleased := true } (.done true)
  | .done ran => .finish ran

end Worker

end PauseCleanup.MetadataRelease
