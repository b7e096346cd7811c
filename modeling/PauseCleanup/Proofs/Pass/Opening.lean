import PauseCleanup.Proofs.Unloading.Opening
import PauseCleanup.Pass.Opening
/-!
# What an opened pass knows of the host
-/
namespace PauseCleanup

open Host (Query Answer)

namespace TableSweep.Opening

variable {host : (q : Query) → Answer q} {may : Reply Answer → Prop} {resize keeps : Bool}

def Knows (host : (q : Query) → Answer q) (keeps : Bool) : Progress Opening TableSweep → Prop
  | .running .start => True
  | .running .prepare => host .tableEnabled = true
  | .running (.done enabled) => enabled = host .tableEnabled
  | .returned sweep => sweep = { enabled := host .tableEnabled, keeps }
  | .panicked _ => True

theorem move_ensures (hmay : Steady host may) {s : Opening} (hs : Knows host keeps (.running s)) :
    (s.move resize keeps).Ensures may (fun _ c _ => Knows host keeps c) () := by
  cases s with
  | start =>
    intro enabled ha
    cases enabled with
    | error cause => exact trivial
    | ok enabled =>
      have he : enabled = host .tableEnabled := hmay _ _ ha
      cases enabled with
      | true => exact he.symm
      | false => exact he
  | prepare =>
    intro a ha
    cases a with
    | error cause => exact trivial
    | ok a => exact Eq.symm hs
  | done enabled => exact congrArg (TableSweep.mk · keeps) hs

end TableSweep.Opening

namespace Pass

variable (host : (q : Query) → Answer q) (units : List UnitId) (r : Request)

/-- A plan and a memory as they are opened over a host. -/
structure Opened (plan : Plan) (shared : Shared) : Prop where
  workers : plan.workers = r.workers
  unloading : plan.unloading = r.unloading
  compiler : plan.compiler = r.compiler
  sweep : plan.sweep = { enabled := host .tableEnabled }
  code : Unloading.Opened host units (r.unloadingRequest plan.pass) plan.code shared.code
  metadata : shared.metadata = {}
  classes : shared.classes = { source := host .classSource }
  tally : shared.tally = {}

namespace Opening

def Knows : Progress Opening (Plan × Shared) → Prop
  | .running (.sweep _ s) => TableSweep.Opening.Knows host false (.running s)
  | .running (.code pass opened s) =>
    opened = { enabled := host .tableEnabled } ∧
      Unloading.Opening.Knows host units (r.unloadingRequest pass) (.running s)
  | .running (.classes pass opened plan shared) =>
    opened = { enabled := host .tableEnabled } ∧
      Unloading.Opened host units (r.unloadingRequest pass) plan shared
  | .running (.built plan shared) => Opened host units r plan shared
  | .running (.done plan shared) => Opened host units r plan shared
  | .returned (plan, shared) => Opened host units r plan shared
  | _ => True

variable {host units r} {may : Reply Answer → Prop}

theorem move_ensures (hmay : Steady host may)
    (hchain : Unloading.Chain (fun u => host (.nextAlive u)) (host .firstAlive) units) {l : Ledger}
    {s : Opening} (hs : Knows host units r (.running s)) :
    (s.move r l).Ensures may (fun _ c _ => Knows host units r c) l := by
  cases s with
  | start => exact trivial
  | sweep pass s =>
    refine (TableSweep.Opening.move_ensures hmay hs).lift rfl ?_ ?_ ?_
    · exact fun _ _ _ h => h
    · exact fun opened h => ⟨h, trivial⟩
    · exact fun _ _ _ => trivial
  | code pass opened s =>
    obtain ⟨hopened, hs⟩ := hs
    have hmove := Unloading.Opening.move_ensures hmay hchain hs
    refine hmove.lift rfl ?_ ?_ ?_
    · exact fun _ _ _ h => ⟨hopened, h⟩
    · exact fun _ h => ⟨hopened, h⟩
    · exact fun _ _ _ => trivial
  | classes pass opened plan shared =>
    obtain ⟨hopened, hcode⟩ := hs
    intro source ha
    cases source with
    | error cause => exact trivial
    | ok source =>
      have hsource : source = host .classSource := hmay _ _ ha
      exact {
        workers := rfl
        unloading := rfl
        compiler := rfl
        sweep := hopened
        code := hcode
        metadata := rfl
        classes := by rw [hsource]
        tally := rfl }
  | built plan shared => exact hs
  | done plan shared => exact hs
  | abandon opened s cause =>
    simp only [move]
    cases s with
    | start =>
      simp only [TableSweep.Closing.move]
      split
      · rintro (cause | a) ha <;> exact trivial
      · exact trivial
    | torn => exact trivial
    | done => exact trivial

theorem returned_opened (hmay : Steady host may)
    (hchain : Unloading.Chain (fun u => host (.nextAlive u)) (host .firstAlive) units)
    {ledger : Ledger} {turns : List (Turn Unit Answer)} (hturns : ∀ t ∈ turns, t.Within may)
    {plan : Plan} {shared : Shared}
    (h : (Pool.alone (Opening.move r) ledger .start turns).calls () = .returned (plan, shared)) :
    Opened host units r plan shared := by
  have htold : Pool.Told (Opening.move r) (fun _ _ c => Knows host units r c)
      (Pool.alone (Opening.move r) ledger .start turns) := by
    refine Pool.told_alone (fun _ _ _ hs => ?_) ?_ hturns
    · exact (move_ensures hmay hchain hs).mono fun _ _ _ h => h
    · exact trivial
  have hknows := htold.story
  rw [h] at hknows
  exact hknows

end Opening

end Pass

end PauseCleanup
