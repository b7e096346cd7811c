import PauseCleanup.Proofs.TallyEntries
import PauseCleanup.Proofs.Unloading.Hand
import Mathlib.Algebra.Group.Hom.Defs
import Mathlib.Algebra.BigOperators.Group.List.Basic
/-!
# What a worker has noted when it panics

The `deeds` of a tally are what was done to the host. A worker that panics has entered all of its
deeds but the classes that it has cleaned or passed over and kept to itself.
-/
namespace PauseCleanup

open Host (Query Answer)
open scoped UInt64.CommRing

/-- The part of a tally that tells of callbacks of the host. -/
def Tally.deeds : Tally →+ Tally where
  toFun t := { t with workers := 0, batches := 0, retries := 0 }
  map_zero' := rfl
  map_add' s t := by simp [Tally.add_def]

namespace Tally

theorem deeds_def (t : Tally) : t.deeds = { t with workers := 0, batches := 0, retries := 0 } := rfl

@[simp] theorem deeds_sums (t : Tally) : t.sums.deeds = t.deeds := rfl

end Tally

theorem deeds_worth (r : Reply Answer) : (worth r).deeds = worth r := by
  obtain ⟨q, a⟩ := r
  cases a with
  | error cause => cases q <;> rfl
  | ok a =>
    cases q with
    | kindOf c => cases hi : ClassLayout.isInstance a <;> simp only [worth, hi] <;> rfl
    | _ => rfl

theorem deeds_sum_worth (l : List (Reply Answer)) :
    ((l.map worth).sum).deeds = (l.map worth).sum := by
  rw [map_list_sum, List.map_map]
  congr 1
  exact List.map_congr_left fun r _ => deeds_worth r

theorem Books.deeds {State Result : Type} {before after : Tally} {c : Progress State Result}
    {l : List (Reply Answer)} (h : Books before after c l) :
    Books before.deeds after.deeds c l := by
  intro hc
  rw [h hc, map_add, deeds_sum_worth]

theorem Books.deeds_of_sums {State Result : Type} {t t' x x' : Tally} {c : Progress State Result}
    {l : List (Reply Answer)} (h : Books (t.sums + x) (t'.sums + x') c l) :
    Books (t.deeds + x.deeds) (t'.deeds + x'.deeds) c l := by
  have hbooks := h.deeds
  rwa [map_add, map_add, Tally.deeds_sums, Tally.deeds_sums] at hbooks

theorem worth_of_error {r : Reply Answer} {cause : Panic} (h : r.2 = .error cause) :
    worth r = 0 := by
  obtain ⟨q, a⟩ := r
  obtain rfl : a = .error cause := h
  cases q <;> rfl

/-- A call that ends with a panic has heard nothing that is to be entered. -/
theorem Move.Ensures.worth_of_panic {Mem State Result : Type} {may : Reply Answer → Prop}
    {mem : Mem} (mv : HostMove Mem State Result) : mv.Ensures may
      (fun _ c l => ∀ cause, c = .panicked cause → (l.map worth).sum = 0) mem := by
  cases mv with
  | ask q resume rescue =>
    intro a _ cause hc
    cases a with
    | ok a => cases hc
    | error cause' =>
      rw [List.map_singleton, List.sum_singleton]
      exact worth_of_error rfl
  | access m s notices => exact fun _ hc => by cases hc
  | abort reason => trivial
  | _ => exact fun _ _ => rfl

variable (may : Reply Answer → Prop)

namespace Unloading.Worker

theorem deeds_pending_claim (total : ℕ) (c : Frontier.Claim) :
    (pending (.running (.claim total c))).deeds = 0 := by
  rw [pending, map_nsmul]
  exact nsmul_zero _

theorem move_deeds (p : Plan) (t : Tallied Shared) (s : Worker) : (s.move p t).Ensures may
    (fun t' c l => Books (t.tally.deeds + (pending (.running s)).deeds)
      (t'.tally.deeds + (pending c).deeds) c l) t := by
  by_cases hclaim : ∃ total c, s = .claim total c
  · obtain ⟨total, c, rfl⟩ := hclaim
    refine (c.asks_next p.batch t.own.frontier).lift rfl ?_ ?_ ?_
    · intro f c' l hl
      refine .quiet ?_ (sum_worth_of_next hl)
      rw [deeds_pending_claim, deeds_pending_claim]
    · intro b _
      refine .silent ?_
      rw [deeds_pending_claim]
      by_cases hb : b.units = []
      · rw [if_pos hb]
        rfl
      · rw [if_neg hb]
        rfl
    · exact fun _ _ _ => .torn
  · refine (move_notes may p t fun total c h => hclaim ⟨total, c, h⟩).mono fun _ _ _ h => ?_
    exact h.2.deeds_of_sums

/-- A worker that panics has entered all units that it has unloaded. -/
theorem move_torn (p : Plan) (t : Tallied Shared) (s : Worker) : (s.move p t).Ensures may
    (fun _ c _ => ∀ cause, c = .panicked cause → (pending (.running s)).deeds = 0) t := by
  cases s with
  | claim total c =>
    have hnone := deeds_pending_claim total c
    exact (Move.Ensures.of_may _).lift rfl (fun _ _ _ _ _ _ => hnone) (fun b _ _ _ => hnone)
      (fun _ _ _ _ _ => hnone)
  | unload total us opened =>
    cases us with
    | nil => exact fun _ hc => by cases hc
    | cons u us => exact fun _ _ _ _ => rfl
  | count total us opened => exact fun _ hc => by cases hc
  | tally total us opened => exact fun _ hc => by cases hc
  | start id =>
    simp only [move]
    split <;> exact fun _ _ => rfl
  | buffer total =>
    simp only [move]
    split <;> exact fun _ _ => rfl
  | first u attempt =>
    exact (Move.Ensures.of_may _).lift rfl (fun _ _ _ _ _ _ => rfl) (fun won _ _ _ => rfl)
      (fun _ _ _ _ _ => rfl)
  | _ => exact fun _ _ => rfl

end Unloading.Worker

theorem MetadataRelease.Worker.move_torn (present unloading : Bool) (t : Tallied OneShot)
    (s : Worker) : (s.move present unloading t).Ensures may
      (fun _ c _ => ∀ cause, c = .panicked cause → (pending (.running s)).deeds = 0) t := by
  cases s with
  | start =>
    simp only [move]
    split
    · exact fun _ _ _ _ => rfl
    · exact fun _ _ => rfl
  | claim attempt =>
    exact (Move.Ensures.of_may _).lift rfl (fun _ _ _ _ _ _ => rfl) (fun won _ _ _ => rfl)
      (fun _ _ _ _ _ => rfl)
  | release => exact fun _ _ _ _ => rfl
  | released => exact fun _ hc => by cases hc
  | done ran => exact fun _ _ => rfl

theorem TableSweep.Worker.move_torn (s : TableSweep) (t : Tally) (w : Worker) :
    (w.move s t).Ensures may
      (fun _ c _ => ∀ cause, c = .panicked cause → (pending (.running w)).deeds = 0) t := by
  cases w with
  | start id =>
    simp only [move]
    split
    · exact fun _ _ _ _ => rfl
    · exact fun _ _ => rfl
  | unlinked => exact fun _ hc => by cases hc
  | done => exact fun _ _ => rfl

namespace ClassCleaning

/-- How many classes a search has passed over without having entered them. -/
def Pick.keptSkipped : Pick → ℕ
  | .draw skipped _ => skipped
  | .kind skipped _ => skipped
  | .settle skipped _ => skipped
  | .done _ => 0

namespace Worker

def keptSkipped : Worker → ℕ
  | .pick _ p => p.keptSkipped
  | _ => 0

def keptCleaned : Worker → ℕ
  | .pick cleaned _ => cleaned
  | .clean cleaned _ => cleaned
  | .report cleaned => cleaned
  | _ => 0

/-- A worker that panics takes with it what it has kept. -/
theorem move_torn (t : Tallied Shared) (s : Worker) : (s.move t).Ensures may
    (fun _ c _ => ∀ cause, c = .panicked cause → (pending (.running s)).deeds =
      { cleaned := .ofNat s.keptCleaned, skipped := .ofNat s.keptSkipped }) t := by
  cases s with
  | tree attempt =>
    exact (Move.Ensures.of_may _).lift rfl (fun _ _ _ _ _ _ => rfl) (fun won _ _ _ => rfl)
      (fun _ _ _ _ _ => rfl)
  | rebuild => exact fun _ _ _ _ => rfl
  | rebuilt => exact fun _ hc => by cases hc
  | pick cleaned p =>
    have hkept : (pending (.running (.pick cleaned p))).deeds =
        { cleaned := .ofNat cleaned, skipped := .ofNat p.keptSkipped } := by
      cases p <;> simp [pending, Pick.pending, Pick.keptSkipped, Tally.nsmul_def, Tally.add_def,
        Tally.zero_def, Tally.deeds_def]
    refine (Move.Ensures.of_may _).lift rfl (fun _ _ _ _ _ _ => hkept) (fun cls _ => ?_)
      (fun _ _ _ _ _ => hkept)
    cases cls <;> exact fun _ _ => hkept
  | clean cleaned c =>
    intro _ _ _ _
    simp [pending, keptCleaned, keptSkipped, Tally.nsmul_def, Tally.deeds_def]
  | report cleaned => exact fun _ hc => by cases hc
  | done cleaned => exact fun _ _ => rfl

end Worker

end ClassCleaning

end PauseCleanup
