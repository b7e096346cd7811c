import PauseCleanup.Race.Dispenser
import PauseCleanup.Ident
/-!
# The host: the managed runtime that is being cleaned

A pass owns nothing of what it cleans: code cache, class registry, string table and compiler are
reached by the questions of `Host.Query`. What the host does in answer is a callback of the pass.
-/
namespace PauseCleanup

/-- Where a class cleaning gets its classes from: the positions of a dense registry, or a list that
the host hands out one element at a time. -/
inductive ClassSource
  | dense (positions : Dispenser)
  | listed (rest : List ClassId)
  deriving DecidableEq

namespace Host

/-- What a pass asks of its host. -/
inductive Query
  | firstAlive
  | nextAlive (unit : UnitId)
  | unload (unit : UnitId) (pass : PassId) (unloading : Bool)
  /-- The host's own check of its code cache after a pass. -/
  | checkCode
  | classSource
  | kindOf (cls : ClassId)
  | cleanTree
  | cleanLinks (cls : ClassId)
  | tableEnabled
  | beginSweep (resize : Bool)
  | endSweep
  /-- Unlink the dead entries of a worker's share of the string table; `keeps` tells whether what is
  kept is to be announced. -/
  | unlink (worker : UInt32) (keeps : Bool)
  | metadataEnabled
  | releaseMetadata (unloading : Bool)
  deriving DecidableEq

abbrev Answer : Query → Type
  | .firstAlive | .nextAlive _ => Option UnitId
  | .checkCode => Option Violation
  | .classSource => ClassSource
  | .kindOf _ => ClassLayout
  | .tableEnabled | .metadataEnabled => Bool
  | _ => Unit

end Host

abbrev HostMove := @Move Host.Query Host.Answer

/-- The view of one pass on which objects died; a unit consults it while it is unloaded. -/
structure LivenessView where
  isAlive : HeapRef → Bool
  pass : PassId

def LivenessView.describe (s : LivenessView) : String :=
  s!"UnloadingScope \x7b pass: {s.pass.describe}, .. \x7d"

/-- What the string table gets to decide about its entries: which objects are alive, and whether the
objects that it keeps are to be announced. -/
structure UnlinkClosure where
  isAlive : HeapRef → Bool
  keeps : Bool

namespace UnlinkClosure

def keep (c : UnlinkClosure) (kept : List HeapRef) (o : HeapRef) : List HeapRef :=
  if c.keeps then kept ++ [o] else kept

def describe (c : UnlinkClosure) : String :=
  s!"DedupUnlinkClosure \x7b has_keep_alive: {c.keeps}, .. \x7d"

end UnlinkClosure

end PauseCleanup
