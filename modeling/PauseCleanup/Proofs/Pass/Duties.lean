import PauseCleanup.Proofs.Pass.Owed
import Mathlib.Algebra.BigOperators.Group.Finset.Piecewise
/-!
# The duties of a pass

What a pass owes its host from beginning to end is owed by the shared memory, by the workers, or has
been asked for.
-/
namespace PauseCleanup.Pass

open Host (Query Answer)
open scoped UInt64.CommRing

variable {ι : Type} {host : (q : Query) → Answer q} {units : List UnitId}
  {may : Reply Answer → Prop}

/-- What is known of the workers of a pass, if `ids` are the ids that they come with. -/
def outline {here : Option UnitId} (hmay : Steady host may)
    (hchain : Unloading.Chain (fun u => host (.nextAlive u)) here units) (plan : Plan)
    (ids : ι → UInt32) : Outline may (fun _ : ι => Worker.move plan) where
  mem := Valid units
  call i m c := Worker.Knows host units plan may (ids i) m c
  later := Later
  stable h hc := Worker.knows_stable h hc
  step hm hs := (Worker.move_ensures hmay hchain hm hs).mono fun _ _ _ h =>
    ⟨⟨h.valid, h.knows⟩, h.later, fun _ _ => trivial⟩

def weights (host : (q : Query) → Answer q) (units : List UnitId) (plan : Plan) :
    Weights Answer Shared Worker Unit (Multiset Query) where
  mem m := m.owes host units plan
  call := Worker.owes host plan
  reply r := chores [r]

section

variable {len : UInt64} {r : Request} {plan : Plan} {shared : Shared}

theorem not_excused
    (hunits : Unloading.Stable (fun u => host (.nextAlive u)) (host .firstAlive) units)
    (hfit : r.tuning.batch.fitsMemory = true) (hopened : Opened host units r plan shared)
    {id : UInt32} (hid : id < r.workers) : ¬Worker.Excused units plan (returning host) id := by
  have hcode : plan.code.batch = r.tuning.batch ∧ plan.code.workers = r.workers := by
    rw [hopened.code.plan]
    exact ⟨rfl, rfl⟩
  rintro (((hpanic | hbuffer | ⟨u, hu, hword⟩) | hrange) | hrange)
  · exact not_mayPanic_returning host hpanic
  · rw [hcode.1, hfit] at hbuffer
    cases hbuffer
  · have hmax := Word.succ?_eq_none_iff.1 hword
    have hsmall := hunits.small u hu
    omega
  · rw [hcode.2] at hrange
    exact hrange hid
  · rw [hopened.workers] at hrange
    exact hrange hid

variable [DecidableEq ι] [Fintype ι]

/-- What was owed in the beginning is owed or has been asked. -/
theorem owes_run (hunits : Unloading.Stable (fun u => host (.nextAlive u)) (host .firstAlive) units)
    (hfit : r.tuning.batch.fitsMemory = true) (hopened : Opened host units r plan shared)
    {ids : ι → UInt32} (hids : ∀ i, ids i < r.workers)
    (hholds : (outline (steady_returning host) hunits.chain plan ids).Holds
      (Pool.start shared fun i => Worker.start (ids i)))
    {turns : List (Turn ι Answer)} (hturns : ∀ t ∈ turns, t.Returns host) :
    let p := work plan shared ids turns
    p.mem.owes host units plan + ∑ i, Worker.owes host plan (p.calls i) + chores p.log =
      shared.owes host units plan + ∑ i, plan.sweep.share (ids i) := by
  intro p
  have hstep : ∀ {i : ι} {m : Shared} {s : Worker},
      Valid units m → Worker.Knows host units plan (returning host) (ids i) m (.running s) →
      (Worker.move plan m s).Ensures (returning host)
        ((weights host units plan).Related Eq m (.running s)) m := by
    intro i m s hm hs
    have hmove := Worker.move_ensures (steady_returning host) hunits.chain hm hs
    refine hmove.mono fun m' c l h => ?_
    have hcalm : ∀ cause, c ≠ .panicked cause := by
      rintro cause rfl
      exact not_excused hunits hfit hopened (hids i) h.knows
    have hsettled := h.settles.eq hcalm
    rw [← sum_chores] at hsettled
    exact hsettled
  have hwithin : ∀ t ∈ turns, t.Within (returning host) := hturns
  have htotal := (weights host units plan).total_run _ (r := Eq) (fun _ => rfl) Eq.trans
    (fun c h => by rw [h]) hstep hholds hwithin
  rw [Weights.total_start, Weights.total] at htotal
  rw [← sum_chores]
  exact htotal

end

/-- What a pass owes its host from beginning to end. -/
def duties [Fintype ι] (host : (q : Query) → Answer q) (units : List UnitId) (r : Request)
    (plan : Plan) (ids : ι → UInt32) : Multiset Query :=
  (plan.code.asks units + MetadataRelease.due host r.compiler r.unloading +
    if r.unloading then
      ClassCleaning.treeWork + ClassCleaning.works host (host .classSource).rest
    else 0) +
    ∑ i, plan.sweep.share (ids i)

section

variable {len : UInt64} {r : Request} {plan : Plan} {shared : Shared} [Fintype ι] {ids : ι → UInt32}

theorem count_shares (q : Query) : (∑ i, plan.sweep.share (ids i)).count q =
    if plan.sweep.enabled then
      (Finset.univ.filter fun i => q = .unlink (ids i) plan.sweep.keeps).card
    else 0 := by
  rw [Multiset.count_sum']
  by_cases he : plan.sweep.enabled = true
  · simp only [TableSweep.share, he, if_true, Multiset.count_singleton, Finset.card_filter]
  · simp [TableSweep.share, he]

theorem count_duties
    (hunits : Unloading.Stable (fun u => host (.nextAlive u)) (host .firstAlive) units)
    (hclasses : (host .classSource).GivesBelow len) (q : Query) :
    (duties host units r plan ids).count q =
      (if q ∈ units.map fun u => Query.unload u plan.code.pass plan.code.unloading then 1 else 0) +
      (if MetadataRelease.isDue host r.compiler r.unloading ∧ q = .releaseMetadata r.unloading
        then 1 else 0) +
      (if r.unloading then
        (if q = .cleanTree then 1 else 0) +
          ((if q ∈ (host .classSource).rest.map Query.kindOf then 1 else 0) +
            if q ∈ ((host .classSource).rest.filter fun c =>
              (host (.kindOf c)).isInstance).map Query.cleanLinks
            then 1 else 0)
      else 0) +
      if plan.sweep.enabled then
        (Finset.univ.filter fun i => q = .unlink (ids i) plan.sweep.keeps).card
      else 0 := by
  have hrelease : (MetadataRelease.due host r.compiler r.unloading).count q =
      if MetadataRelease.isDue host r.compiler r.unloading ∧ q = .releaseMetadata r.unloading
      then 1 else 0 := by
    by_cases hd : MetadataRelease.isDue host r.compiler r.unloading = true
    · simp [MetadataRelease.due, hd, Multiset.count_singleton]
    · simp [MetadataRelease.due, hd]
  have hclass : (if r.unloading then
        ClassCleaning.treeWork + ClassCleaning.works host (host .classSource).rest
      else 0).count q =
      if r.unloading then
        (if q = .cleanTree then 1 else 0) +
          ((if q ∈ (host .classSource).rest.map Query.kindOf then 1 else 0) +
            if q ∈ ((host .classSource).rest.filter fun c =>
              (host (.kindOf c)).isInstance).map Query.cleanLinks
            then 1 else 0)
      else 0 := by
    by_cases hu : r.unloading = true
    · simp only [hu, if_true]
      rw [Multiset.count_add, ClassCleaning.count_works _ hclasses.nodup_rest,
        ClassCleaning.treeWork, Multiset.count_singleton]
    · simp [hu]
  rw [duties, Multiset.count_add, Multiset.count_add, Multiset.count_add,
    Unloading.Plan.count_asks _ hunits.nodup, hrelease, hclass, count_shares]

theorem not_isUnload_of_mem {q : Query}
    (hq : q ∈ MetadataRelease.due host r.compiler r.unloading +
      (if r.unloading then
        ClassCleaning.treeWork + ClassCleaning.works host (host .classSource).rest
      else 0) +
      ∑ i, plan.sweep.share (ids i)) : ¬q.isUnload = true := by
  rw [Multiset.mem_add, Multiset.mem_add, Multiset.mem_sum] at hq
  rcases hq with (hq | hq) | ⟨i, -, hq⟩
  · unfold MetadataRelease.due at hq
    split at hq
    · rw [Multiset.mem_singleton.1 hq]
      simp [Query.isUnload]
    · exact absurd hq (Multiset.notMem_zero q)
  · split at hq
    · rw [Multiset.mem_add, ClassCleaning.works_eq, Multiset.mem_add] at hq
      rcases hq with hq | hq | hq
      · rw [Multiset.mem_singleton.1 hq]
        decide
      · obtain ⟨c, -, rfl⟩ := List.mem_map.1 (Multiset.mem_coe.1 hq)
        simp [Query.isUnload]
      · obtain ⟨c, -, rfl⟩ := List.mem_map.1 (Multiset.mem_coe.1 hq)
        simp [Query.isUnload]
    · exact absurd hq (Multiset.notMem_zero q)
  · unfold TableSweep.share at hq
    split at hq
    · rw [Multiset.mem_singleton.1 hq]
      simp [Query.isUnload]
    · exact absurd hq (Multiset.notMem_zero q)

theorem duties_eq : duties host units r plan ids = plan.code.asks units +
    (MetadataRelease.due host r.compiler r.unloading +
      (if r.unloading then
        ClassCleaning.treeWork + ClassCleaning.works host (host .classSource).rest
      else 0) +
      ∑ i, plan.sweep.share (ids i)) := by
  rw [duties, add_assoc, add_assoc, ← add_assoc (MetadataRelease.due _ _ _)]

theorem countP_unload_duties :
    (duties host units r plan ids).countP (·.isUnload) = units.length := by
  rw [duties_eq, Multiset.countP_add, Multiset.countP_eq_zero.2 fun q => not_isUnload_of_mem,
    Unloading.Plan.asks, Multiset.coe_countP, List.countP_map, add_zero]
  exact List.countP_eq_length.2 fun u _ => rfl

theorem count_unload_duties (hnodup : units.Nodup) (u : UnitId) (pass : PassId) (unloading : Bool) :
    (duties host units r plan ids).count (.unload u pass unloading) =
      if u ∈ units ∧ pass = plan.code.pass ∧ unloading = plan.code.unloading then 1 else 0 := by
  rw [duties_eq, Multiset.count_add, Unloading.Plan.count_asks _ hnodup,
    Multiset.count_eq_zero.2 fun hq => not_isUnload_of_mem hq rfl]
  simp [eq_comm (a := pass), eq_comm (a := unloading)]

/-- The count at the end of a calm pass is right, so the check that goes by it passes. -/
theorem checked_of_log {p : Pool ι Answer Shared Worker Unit}
    (hopened : Opened host units r plan shared) (hlog : ∀ r ∈ p.log, returning host r)
    (hduties : chores p.log = duties host units r plan ids)
    (hcounted : p.mem.code.unloaded = .ofNat (unloadings p.log)) :
    p.mem.code.unloaded = .ofNat units.length ∧
      Unloading.checkCount plan.code.expected p.mem.code.unloaded = none := by
  have hexpected : plan.code.expected = (r.unloadingRequest plan.pass).expects units := by
    rw [hopened.code.plan]
  have hlength : unloadings p.log = units.length := by
    rw [unloadings_of_returning hlog, hduties, countP_unload_duties]
  rw [hcounted, hlength, hexpected, Unloading.Request.expects]
  refine ⟨rfl, ?_⟩
  split
  · exact Unloading.checkCount_some_eq_none.2 rfl
  · exact Unloading.checkCount_none _

end

end PauseCleanup.Pass
