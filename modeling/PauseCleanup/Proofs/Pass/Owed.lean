import PauseCleanup.Proofs.Pass.Opening
import PauseCleanup.Proofs.Pass.Worker
/-!
# What a pass owes at its beginning and at its end

A freshly opened pass owes each chore once; how often each is said question by question. A pass
whose last phase is over for a worker 0 owes nothing any more.
-/
namespace PauseCleanup

open Host (Query Answer)

namespace ClassCleaning

variable (host : (q : Query) → Answer q)

theorem works_eq (cs : List ClassId) : works host cs = ↑(cs.map Query.kindOf) +
    ↑((cs.filter fun c => (host (.kindOf c)).isInstance).map Query.cleanLinks) := by
  induction cs with
  | nil => rfl
  | cons c cs ih =>
    have hcons : works host (c :: cs) = work host c + works host cs := rfl
    rw [hcons, ih, work, List.map_cons, List.filter_cons]
    by_cases hi : (host (.kindOf c)).isInstance = true
    · simp only [hi, if_true, links, Option.toList_some, List.map_cons, List.map_nil,
        ← Multiset.cons_coe,
        ← Multiset.singleton_add]
      rw [Multiset.coe_nil, add_zero]
      abel
    · simp only [hi, if_false, Bool.false_eq_true, ← Multiset.cons_coe, ← Multiset.singleton_add]
      rw [add_zero, add_assoc]

theorem count_works {cs : List ClassId} (h : cs.Nodup) (q : Query) :
    (works host cs).count q = (if q ∈ cs.map Query.kindOf then 1 else 0) +
      if q ∈ (cs.filter fun c => (host (.kindOf c)).isInstance).map Query.cleanLinks
      then 1 else 0 := by
  have hkinds : (cs.map Query.kindOf).Nodup := h.map fun c d he => Query.kindOf.inj he
  have hlinks : ((cs.filter fun c => (host (.kindOf c)).isInstance).map Query.cleanLinks).Nodup :=
    (h.filter _).map fun c d he => Query.cleanLinks.inj he
  rw [works_eq, Multiset.count_add, count_coe_of_nodup hkinds, count_coe_of_nodup hlinks]

end ClassCleaning

namespace Pass

variable {host : (q : Query) → Answer q} {units : List UnitId} {r : Request} {plan : Plan}
  {shared : Shared}

/-- An opened pass stands at the beginning of the sequence. -/
theorem Opened.valid_of_source (h : Opened host units r plan shared)
    (hchain : Unloading.Chain (fun u => host (.nextAlive u)) (host .firstAlive) units)
    (hsource : (host .classSource).Valid) : Valid units shared := by
  refine ⟨(h.code.owes hchain).1, ?_⟩
  rw [h.classes]
  exact hsource

theorem Opened.owes (h : Opened host units r plan shared)
    (hchain : Unloading.Chain (fun u => host (.nextAlive u)) (host .firstAlive) units) :
    shared.owes host units plan =
      plan.code.asks units + MetadataRelease.due host r.compiler r.unloading +
        if r.unloading then
          ClassCleaning.treeWork + ClassCleaning.works host (host .classSource).rest
        else 0 := by
  rw [Shared.owes, (h.code.owes hchain).2, h.metadata, h.classes, h.unloading, h.compiler]
  rfl

/-- Nothing is owed any more by what worker 0 leaves behind. -/
theorem owes_eq_zero (hmetadata : Worker.MetadataDone host plan shared)
    (hcode : Worker.CodeDone plan 0 shared)
    (hclasses : plan.unloading = true → Worker.ClassesDone shared) :
    shared.owes host units plan = 0 := by
  have hunits : shared.code.owes plan.code units = 0 :=
    Unloading.Shared.owes_eq_zero units (hcode.1 rfl) hcode.2
  have hrelease :
      shared.metadata.left (MetadataRelease.due host plan.compiler plan.unloading) = 0 := by
    by_cases hdue : MetadataRelease.isDue host plan.compiler plan.unloading = true
    · exact OneShot.left_of_taken _ (hmetadata hdue)
    · simp [MetadataRelease.due, hdue, OneShot.left]
  rw [Shared.owes, hunits, hrelease, add_zero, zero_add]
  split
  · next hu =>
    obtain ⟨htree, hempty⟩ := hclasses hu
    rw [ClassCleaning.Shared.owes, OneShot.left_of_taken _ htree,
      ClassSource.rest_of_isEmpty hempty, ClassCleaning.works_nil, add_zero]
  · rfl

end Pass

end PauseCleanup
