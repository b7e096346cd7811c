import PauseCleanup.Pass.Opening
import PauseCleanup.Pool
import PauseCleanup.Unloading.Chain
/-!
# A small host

Three units in no order of their indices, three classes of which two are ordinary, the string table
and the compiler switched on: theorems about runs are tried on it.
-/
namespace PauseCleanup

open Unloading (Chain Stable)

def smallHost : (q : Host.Query) → Host.Answer q
  | .firstAlive => some ⟨5⟩
  | .nextAlive u => if u = ⟨5⟩ then some ⟨2⟩ else if u = ⟨2⟩ then some ⟨9⟩ else none
  | .unload .. => ()
  | .checkCode => none
  | .classSource => .dense { size := 3 }
  | .kindOf c => if c.index = 1 then .objectArray else .ordinary
  | .cleanTree => ()
  | .cleanLinks _ => ()
  | .tableEnabled => true
  | .beginSweep _ => ()
  | .endSweep => ()
  | .unlink .. => ()
  | .metadataEnabled => true
  | .releaseMetadata _ => ()

def smallUnits : List UnitId := [⟨5⟩, ⟨2⟩, ⟨9⟩]

theorem smallUnits_chain :
    Chain (fun u => smallHost (.nextAlive u)) (smallHost .firstAlive) smallUnits :=
  .cons (.cons (.cons .nil))

theorem smallUnits_stable :
    Stable (fun u => smallHost (.nextAlive u)) (smallHost .firstAlive) smallUnits where
  chain := smallUnits_chain
  nodup := by decide
  small := by decide

def calmTurns {ι Q : Type} {A : Q → Type} (host : (q : Q) → A q) (callers : List ι) :
    List (Turn ι A) :=
  callers.map fun i => ⟨i, fun q => .ok (host q)⟩

theorem calmTurns_returns {ι Q : Type} {A : Q → Type} (host : (q : Q) → A q) (callers : List ι) :
    ∀ t ∈ calmTurns host callers, t.Returns host := by
  intro t ht q
  obtain ⟨i, -, rfl⟩ := List.mem_map.1 ht
  rfl

def brokenTurns {ι Q : Type} {A : Q → Type} (host : (q : Q) → A q) (breaks : Q → Bool)
    (callers : List ι) : List (Turn ι A) :=
  callers.map fun i => ⟨i, fun q => if breaks q then .error (.raised (.number 7)) else .ok (host q)⟩

theorem brokenTurns_agrees {ι Q : Type} {A : Q → Type} (host : (q : Q) → A q) (breaks : Q → Bool)
    (callers : List ι) : ∀ t ∈ brokenTurns host breaks callers, t.Agrees host := by
  intro t ht q
  obtain ⟨i, -, rfl⟩ := List.mem_map.1 ht
  by_cases hq : breaks q = true
  · exact .inr ⟨_, if_pos hq⟩
  · exact .inl (if_neg hq)

namespace Pass

/-- A pass over the small host in batches of one unit. -/
def smallRequest : Request where
  tuning := { workers := some 2, batch := .ofWord 1 }
  unloading := true
  compiler := true

def smallPlan : Plan where
  pass := ⟨1⟩
  workers := 2
  unloading := true
  compiler := true
  sweep := { enabled := true }
  code :=
    { pass := ⟨1⟩, unloading := true, workers := 2, batch := .ofWord 1, first := some ⟨5⟩,
      expected := some 3 }

def smallShared : Shared where
  code := { frontier := ⟨6⟩ }
  classes := { source := .dense { size := 3 } }

end Pass

end PauseCleanup
