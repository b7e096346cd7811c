import PauseCleanup.Ident
/-!
# Counts of a pass

`Tally` holds the counters that the workers of a pass share while they run; `Metrics` is what they
read for one pass. Counters are words and wrap. How long a pass took is not counted here.
-/
namespace PauseCleanup

structure Tally where
  workers : UInt64 := 0
  units : UInt64 := 0
  batches : UInt64 := 0
  retries : UInt64 := 0
  cleaned : UInt64 := 0
  skipped : UInt64 := 0
  treeRebuilt : Bool := false
  metadataReleased : Bool := false
  partitions : UInt64 := 0
  deriving DecidableEq

structure Metrics where
  pass : PassId := ⟨0⟩
  unloading : Bool := false
  counts : Tally := {}
  deriving DecidableEq

def Tally.read (t : Tally) (pass : PassId) (unloading : Bool) : Metrics := ⟨pass, unloading, t⟩

namespace Metrics

def zero : Metrics := {}

/-- All fields by name; the time that a pass took is left at zero. -/
def describe (m : Metrics) : String :=
  s!"CleaningMetrics \x7b pass: {m.pass.describe}, unloading_occurred: {m.unloading}, " ++
    s!"workers_run: {m.counts.workers}, units_unloaded: {m.counts.units}, " ++
    s!"batches_claimed: {m.counts.batches}, claim_retries: {m.counts.retries}, " ++
    s!"classes_cleaned: {m.counts.cleaned}, classes_skipped: {m.counts.skipped}, " ++
    s!"subclass_tree_rebuilt: {m.counts.treeRebuilt}, " ++
    s!"compiler_metadata_unloaded: {m.counts.metadataReleased}, " ++
    s!"dedup_partitions: {m.counts.partitions}, duration: 0ns \x7d"

end Metrics

/-- A task's own shared memory beside the counters it reports to. -/
structure Tallied (α : Type) where
  own : α
  tally : Tally := {}
  deriving DecidableEq

end PauseCleanup
