import PauseCleanup.Host
/-!
# Drawing classes

A dense registry gives its positions through a dispenser, a listed one the head of its list; either
way each element goes to one caller. A draw that fails for no reason would only look again, so such
failures are left out.
-/
namespace PauseCleanup.ClassSource

inductive Draw
  | start
  | take (attempt : Dispenser.Take)
  | done (cls : Option ClassId)

def Draw.move (s : ClassSource) : Draw → HostMove ClassSource Draw (Option ClassId)
  | .start =>
    match s with
    | .dense d => .access (.dense d) (.take .load)
    | .listed [] => .access (.listed []) (.done none)
    | .listed (c :: rest) => .access (.listed rest) (.done (some c))
  | .take attempt =>
    match s with
    | .dense d =>
      (attempt.move d).lift s .dense .take fun n => .access s (.done (n.map ClassId.mk))
    | .listed _ => .access s .start
  | .done cls => .finish cls

end PauseCleanup.ClassSource
