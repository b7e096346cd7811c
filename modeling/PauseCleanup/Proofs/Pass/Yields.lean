import PauseCleanup.Proofs.Pass.Duties
/-!
# What the duties of a pass bring in

Whatever value each question has, the duties of a pass are worth what the units, the metadata, the
classes and the shares of the table are worth together.
-/
namespace PauseCleanup.Pass

open Host (Query Answer)

variable {ι : Type} {host : (q : Query) → Answer q} {units : List UnitId} {r : Request}
  {plan : Plan} {ids : ι → UInt32}

/-- The instance classes among some classes. -/
def instances (host : (q : Query) → Answer q) (cs : List ClassId) : List ClassId :=
  cs.filter fun c => (host (.kindOf c)).isInstance

def others (host : (q : Query) → Answer q) (cs : List ClassId) : List ClassId :=
  cs.filter fun c => !(host (.kindOf c)).isInstance

variable {M : Type} [AddCommMonoid M] (f : Query → M)

/-- What some questions bring in, each with a value of its own. -/
def yields : Multiset Query →+ M := Multiset.sumAddMonoidHom.comp (Multiset.mapAddMonoidHom f)

theorem yields_coe (qs : List Query) : yields f ↑qs = (qs.map f).sum := by simp [yields]

theorem yields_singleton (q : Query) : yields f {q} = f q := by simp [yields]

/-- If nothing but chores brings anything in, a log brings in what its chores do. -/
theorem sum_map_eq_yields {g : Reply Answer → M} (hg : ∀ q, g ⟨q, .ok (host q)⟩ = f q)
    (hf : ∀ q, q.isChore = false → f q = 0) {l : List (Reply Answer)}
    (hl : ∀ r ∈ l, returning host r) : (l.map g).sum = yields f (chores l) := by
  induction l with
  | nil => rfl
  | cons r l ih =>
    obtain ⟨q, a⟩ := r
    have ha : a = .ok (host q) := hl ⟨q, a⟩ (by simp)
    subst ha
    have hone : yields f (chores [⟨q, .ok (host q)⟩]) = f q := by
      cases hq : q.isChore with
      | true => simp [chores, hq, yields]
      | false => simp [chores, hq, hf q hq]
    rw [List.map_cons, List.sum_cons, hg, chores_cons, map_add, hone,
      ih fun r hr => hl r (by simp [hr])]

theorem yields_duties [Fintype ι] : yields f (duties host units r plan ids) =
    (units.map fun u => f (.unload u plan.code.pass plan.code.unloading)).sum +
      (if MetadataRelease.isDue host r.compiler r.unloading then f (.releaseMetadata r.unloading)
        else 0) +
      (if r.unloading then
        f .cleanTree + (((host .classSource).rest.map fun c => f (.kindOf c)).sum +
          ((instances host (host .classSource).rest).map fun c => f (.cleanLinks c)).sum)
      else 0) +
      if plan.sweep.enabled then ∑ i, f (.unlink (ids i) plan.sweep.keeps) else 0 := by
  have hasks : yields f (plan.code.asks units) =
      (units.map fun u => f (.unload u plan.code.pass plan.code.unloading)).sum := by
    rw [Unloading.Plan.asks, yields_coe, List.map_map]
    rfl
  have hdue : yields f (MetadataRelease.due host r.compiler r.unloading) =
      if MetadataRelease.isDue host r.compiler r.unloading then f (.releaseMetadata r.unloading)
        else 0 := by
    unfold MetadataRelease.due
    split
    · exact yields_singleton f _
    · exact map_zero _
  have hclasses : yields f (if r.unloading then
        ClassCleaning.treeWork + ClassCleaning.works host (host .classSource).rest
      else 0) = if r.unloading then
        f .cleanTree + (((host .classSource).rest.map fun c => f (.kindOf c)).sum +
          ((instances host (host .classSource).rest).map fun c => f (.cleanLinks c)).sum)
      else 0 := by
    split
    · rw [map_add, ClassCleaning.works_eq, map_add, yields_coe, yields_coe, List.map_map,
        List.map_map, ClassCleaning.treeWork, yields_singleton]
      rfl
    · exact map_zero _
  have hshares : yields f (∑ i, plan.sweep.share (ids i)) =
      if plan.sweep.enabled then ∑ i, f (.unlink (ids i) plan.sweep.keeps) else 0 := by
    rw [map_sum]
    unfold TableSweep.share
    split
    · simp [yields_singleton]
    · simp
  rw [duties, map_add, map_add, map_add, hasks, hdue, hclasses, hshares]

end PauseCleanup.Pass
