import PauseCleanup.Ident
import PauseCleanup.Text.Quoted
/-!
# Broken guarantees

A pass promises that every alive unit is unloaded once. `Violation` lists how a finished pass can be
found to have broken that promise; there is no way to recover from any of them.
-/
namespace PauseCleanup

/-- A broken exactly-once promise. -/
inductive Violation
  /-- As many units were unloaded as `unloaded`, but `expected` were alive when the pass was
  prepared. -/
  | countMismatch (expected unloaded : UInt64)
  | duplicate (unit : UnitId) (count : UInt32)
  | missed (unit : UnitId)
  | codeCache (text : String)
  deriving DecidableEq

namespace Violation

def message : Violation → String
  | .countMismatch expected unloaded =>
    s!"{unloaded} compiled units unloaded but {expected} were alive when the pass started"
  | .duplicate unit count => s!"compiled unit {unit.describe} unloaded {count} times"
  | .missed unit => s!"compiled unit {unit.describe} was alive but never unloaded"
  | .codeCache text => s!"code cache verification failed: {text}"

/-- The violation with all it carries, texts in quotes. -/
def describe : Violation → String
  | .countMismatch expected unloaded =>
    s!"UnloadCountMismatch \x7b expected: {expected}, unloaded: {unloaded} \x7d"
  | .duplicate unit count => s!"DuplicateUnload \x7b unit: {unit.describe}, count: {count} \x7d"
  | .missed unit => s!"MissedUnload({unit.describe})"
  | .codeCache text => s!"CodeCache({Text.quoted text})"

end Violation

end PauseCleanup
