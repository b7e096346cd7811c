import PauseCleanup.Unloading.Basic
/-!
# Checking and closing an unloading

A finished unloading is checked by its count first; only if that is right is the host asked. Closing
aborts the process when the check finds anything.
-/
namespace PauseCleanup.Unloading

/-- The check of a finished unloading. -/
inductive Check
  | start
  | host
  | done (found : Option Violation)

def Check.move (p : Plan) (m : Shared) : Check → HostMove Shared Check (Option Violation)
  | .start =>
    match checkCount p.expected m.unloaded with
    | some v => .access m (.done (some v))
    | none => .access m (if p.hostChecks then .host else .done none)
  | .host => .ask .checkCode .done
  | .done found => .finish found

inductive Closing
  | start
  | check (c : Check)
  | fatal (found : Violation)
  | done

def Closing.move (p : Plan) (unwinding : Bool) (m : Shared) : Closing → HostMove Shared Closing Unit
  | .start => .access m (if unwinding || m.entered == 0 then .done else .check .start)
  | .check c =>
    (c.move p m).lift m id .check fun
      | none => .access m .done
      | some v => .access m (.fatal v) [.violated v]
  | .fatal v => .abort (.violation v)
  | .done => .finish ()

end PauseCleanup.Unloading
