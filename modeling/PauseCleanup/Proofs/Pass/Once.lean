import PauseCleanup.Proofs.Pass.Calm
import PauseCleanup.Proofs.SmallHost
import Mathlib.Data.Fin.VecNotation
/-!
# A calm pass does everything once

However the moves of the workers interleave: when all of them are over, every chore of the pass has
been asked for exactly once, or not at all if it was not due.
-/
namespace PauseCleanup.Pass

open Host (Query Answer)

variable {ι : Type} {host : (q : Query) → Answer q} {units : List UnitId}

/-- Every chore of a pass was done, once each, and nothing else was. -/
structure DoneOnce [Fintype ι] (host : (q : Query) → Answer q) (units : List UnitId) (len : UInt64)
    (r : Request) (plan : Plan) (ids : ι → UInt32)
    (p : Pool ι Answer Shared Worker Unit) : Prop where
  returned : ∀ i, p.calls i = .returned ()
  unloads : ∀ u pass unloading, p.times (.unload u pass unloading) =
    if u ∈ units ∧ pass = plan.pass ∧ unloading = r.unloading then 1 else 0
  tree : p.times .cleanTree = if r.unloading then 1 else 0
  kinds : ∀ c, p.times (.kindOf c) = if r.unloading ∧ c.index < len then 1 else 0
  links : ∀ c, p.times (.cleanLinks c) =
    if r.unloading ∧ c.index < len ∧ (host (.kindOf c)).isInstance then 1 else 0
  metadata : ∀ unloading, p.times (.releaseMetadata unloading) =
    if unloading ∧ r.unloading ∧ r.compiler ∧ host .metadataEnabled then 1 else 0
  table : ∀ id keeps, p.times (.unlink id keeps) =
    if keeps = false ∧ host .tableEnabled then (Finset.univ.filter fun i => ids i = id).card else 0
  counted : p.mem.code.unloaded = .ofNat units.length ∧
    Unloading.checkCount plan.code.expected p.mem.code.unloaded = none

section

variable {len : UInt64} {r : Request} {plan : Plan} {shared : Shared} [Fintype ι] {ids : ι → UInt32}

variable [DecidableEq ι] {turns : List (Turn ι Answer)}

theorem Finished.doneOnce
    (hunits : Unloading.Stable (fun u => host (.nextAlive u)) (host .firstAlive) units)
    (hclasses : (host .classSource).GivesBelow len) (hopened : Opened host units r plan shared)
    (h : Finished host units r plan ids (work plan shared ids turns)) :
    DoneOnce host units len r plan ids (work plan shared ids turns) := by
  have htimes : ∀ q : Query, q.isChore = true →
      (work plan shared ids turns).times q = (duties host units r plan ids).count q := by
    intro q hq
    rw [Pool.times_eq, ← count_chores hq, h.asked]
  have hsweep : plan.sweep = { enabled := host .tableEnabled } := hopened.sweep
  have hpass : plan.code.pass = plan.pass ∧ plan.code.unloading = r.unloading := by
    rw [hopened.code.plan]
    exact ⟨rfl, rfl⟩
  constructor
  case returned => exact h.returned
  case unloads =>
    intro u pass unloading
    rw [htimes _ rfl, count_unload_duties hunits.nodup, hpass.1, hpass.2]
  case tree =>
    rw [htimes _ rfl, count_duties hunits hclasses, hsweep]
    simp
  case kinds =>
    intro c
    rw [htimes _ rfl, count_duties hunits hclasses, hsweep]
    by_cases hu : r.unloading = true <;> simp [hu, hclasses.mem_rest]
  case links =>
    intro c
    rw [htimes _ rfl, count_duties hunits hclasses, hsweep]
    by_cases hu : r.unloading = true <;> simp [hu, hclasses.mem_rest]
  case metadata =>
    intro unloading
    rw [htimes _ rfl, count_duties hunits hclasses, hsweep]
    by_cases hu : r.unloading = true <;> simp [hu, MetadataRelease.isDue, and_comm]
  case table =>
    intro id keeps
    rw [htimes _ rfl, count_duties hunits hclasses, hsweep]
    cases keeps <;> simp [eq_comm (a := id)]
  case counted => exact checked_of_log hopened h.replies h.asked (h.counted hopened)

variable (r ids)

/-- Any calm run of a pass to its end does every chore of the pass, and does it once. -/
theorem calm_pass_does_all_once
    (hunits : Unloading.Stable (fun u => host (.nextAlive u)) (host .firstAlive) units)
    (hclasses : (host .classSource).GivesBelow len) (hfit : r.tuning.batch.fitsMemory = true)
    (ledger : Ledger) (opening : List (Turn Unit Answer)) (hopening : ∀ t ∈ opening, t.Returns host)
    (hopen : (Pool.alone (Opening.move r) ledger .start opening).calls () =
      .returned (plan, shared))
    (hids : ∀ i, ids i < r.workers) (hzero : ∃ i, ids i = 0) {turns : List (Turn ι Answer)}
    (hturns : ∀ t ∈ turns, t.Returns host) (hover : (work plan shared ids turns).AllOver) :
    DoneOnce host units len r plan ids (work plan shared ids turns) := by
  have hopened : Opened host units r plan shared :=
    Opening.returned_opened (steady_returning host) hunits.chain hopening hopen
  have hfinished : Finished host units r plan ids (work plan shared ids turns) :=
    finished hunits hclasses.valid hfit hopened hids hzero hturns hover
  exact hfinished.doneOnce hunits hclasses hopened

end

theorem calm_pass_does_all_once_small :
    let ids : Fin 3 → UInt32 := ![0, 1, 0]
    let turns := calmTurns smallHost (List.replicate 70 [0, 1, 2]).flatten
    DoneOnce smallHost smallUnits 3 smallRequest smallPlan ids
      (work smallPlan smallShared ids turns) := by
  intro ids turns
  refine calm_pass_does_all_once smallRequest ids smallUnits_stable (.inl rfl) (by decide) {}
    (calmTurns smallHost (List.replicate 15 ())) (calmTurns_returns _ _) ?_ (by decide) ⟨0, rfl⟩
    (calmTurns_returns _ _) ?_
  · rfl
  · unfold Pool.AllOver
    decide +kernel

end PauseCleanup.Pass
