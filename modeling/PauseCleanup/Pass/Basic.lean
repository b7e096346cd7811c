import PauseCleanup.ClassCleaning.Worker
import PauseCleanup.Ledger
import PauseCleanup.MetadataRelease
import PauseCleanup.TableSweep
import PauseCleanup.Tuning
import PauseCleanup.Unloading.Basic
/-!
# Passes

A pass cleans the whole host once: compiler metadata, code cache, string table and, if classes were
unloaded, class metadata. `Plan` is what is fixed when the pass is opened, `Shared` is the memory
its workers share.
-/
namespace PauseCleanup.Pass

structure Plan where
  pass : PassId
  workers : UInt32
  unloading : Bool
  compiler : Bool
  sweep : TableSweep
  code : Unloading.Plan

structure Shared where
  code : Unloading.Shared
  metadata : OneShot := {}
  classes : ClassCleaning.Shared
  tally : Tally := {}

namespace Shared

def codePart (m : Shared) : Tallied Unloading.Shared := ⟨m.code, m.tally⟩

def putCode (m : Shared) (t : Tallied Unloading.Shared) : Shared :=
  { m with code := t.own, tally := t.tally }

def metadataPart (m : Shared) : Tallied OneShot := ⟨m.metadata, m.tally⟩

def putMetadata (m : Shared) (t : Tallied OneShot) : Shared :=
  { m with metadata := t.own, tally := t.tally }

def classPart (m : Shared) : Tallied ClassCleaning.Shared := ⟨m.classes, m.tally⟩

def putClasses (m : Shared) (t : Tallied ClassCleaning.Shared) : Shared :=
  { m with classes := t.own, tally := t.tally }

@[simp] theorem putCode_codePart (m : Shared) : m.putCode m.codePart = m := rfl

@[simp] theorem putMetadata_metadataPart (m : Shared) : m.putMetadata m.metadataPart = m := rfl

@[simp] theorem putClasses_classPart (m : Shared) : m.putClasses m.classPart = m := rfl

end Shared

/-- The numbers of a pass at this moment. -/
def metrics (p : Plan) (m : Shared) : Metrics := m.tally.read p.pass p.unloading

def taskName : String := "Parallel Cleaning"

end PauseCleanup.Pass
