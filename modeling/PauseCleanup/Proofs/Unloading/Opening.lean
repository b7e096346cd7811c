import PauseCleanup.Proofs.Pool.Alone
import PauseCleanup.Unloading.Opening
import PauseCleanup.Unloading.Chain
/-!
# What an opened unloading knows of the host

While it counts, an opening has a part of the sequence behind it and the rest before it. So what it
returns has the host's first unit and, if it was asked to count, the number of all units.
-/
namespace PauseCleanup.Unloading

open Host (Query Answer)

variable (host : (q : Query) → Answer q) (units : List UnitId) (r : Request)

/-- The number of units that the check of an unloading goes by. -/
def Request.expects : Option UInt64 := if r.verify then some (.ofNat units.length) else none

/-- A plan and a memory as they are opened over a host. -/
structure Opened (plan : Plan) (shared : Shared) : Prop where
  plan : plan = {
    pass := r.pass, unloading := r.unloading, workers := r.workers, batch := r.batch,
    first := host .firstAlive,
    expected := r.expects units, hostChecks := r.hostChecks }
  shared : ∃ f, Frontier.after (host .firstAlive) = some f ∧ shared = { frontier := f }

namespace Opening

def Knows : Progress Opening (Plan × Shared) → Prop
  | .running .start => True
  | .running (.found first) => first = host .firstAlive
  | .running (.count first here counted) =>
    r.verify = true ∧ first = host .firstAlive ∧
      ∃ past rest, units = past ++ rest ∧ Chain (fun u => host (.nextAlive u)) here rest ∧
        counted = past.length
  | .running (.build first expected) => first = host .firstAlive ∧ expected = r.expects units
  | .running (.done plan shared) => Opened host units r plan shared
  | .returned (plan, shared) => Opened host units r plan shared
  | .panicked _ => True

variable {host units r} {may : Reply Answer → Prop}

theorem move_ensures (hmay : Steady host may)
    (hchain : Chain (fun u => host (.nextAlive u)) (host .firstAlive) units) {s : Opening}
    (hs : Knows host units r (.running s)) :
    (s.move r).Ensures may (fun _ c _ => Knows host units r c) () := by
  cases s with
  | start =>
    simp only [move]
    split
    · exact trivial
    · intro first ha
      cases first with
      | error cause => exact trivial
      | ok first => exact hmay _ _ ha
  | found first =>
    obtain rfl : first = host .firstAlive := hs
    simp only [move]
    split
    · next hv => exact ⟨hv, rfl, [], units, rfl, hchain, rfl⟩
    · next hv => exact ⟨rfl, by rw [Request.expects, if_neg hv]⟩
  | count first here counted =>
    obtain ⟨hv, hfirst, past, rest, hunits, hrest, hcounted⟩ := hs
    cases hrest with
    | nil =>
      refine ⟨hfirst, ?_⟩
      rw [Request.expects, if_pos hv, hunits, hcounted, List.append_nil]
    | @cons u us hus =>
      intro here ha
      cases here with
      | error cause => exact trivial
      | ok here =>
        have hhere : here = host (.nextAlive u) := hmay _ _ ha
        refine ⟨hv, hfirst, past ++ [u], us, by simp [hunits], hhere ▸ hus, by simp [hcounted]⟩
  | build first expected =>
    obtain ⟨rfl, rfl⟩ := hs
    simp only [move]
    split
    · exact trivial
    · next f hf => exact ⟨rfl, f, hf, rfl⟩
  | done plan shared => exact hs

theorem returned_opened (hmay : Steady host may)
    (hchain : Chain (fun u => host (.nextAlive u)) (host .firstAlive) units)
    {turns : List (Turn Unit Answer)} (hturns : ∀ t ∈ turns, t.Within may)
    {plan : Plan} {shared : Shared}
    (h : (Pool.alone (fun _ => Opening.move r) () .start turns).calls () =
      .returned (plan, shared)) : Opened host units r plan shared := by
  have htold : Pool.Told (fun _ => Opening.move r) (fun _ _ c => Knows host units r c)
      (Pool.alone (fun _ => Opening.move r) () .start turns) := by
    refine Pool.told_alone (fun _ _ _ hs => ?_) ?_ hturns
    · exact (move_ensures hmay hchain hs).mono fun _ _ _ h => h
    · exact trivial
  have hknows := htold.story
  rw [h] at hknows
  exact hknows

end Opening

end PauseCleanup.Unloading
