import PauseCleanup.Proofs.Process.Alone
import PauseCleanup.Proofs.Process.Books
import PauseCleanup.Proofs.Process.Ends
import PauseCleanup.Proofs.Process.Unloads
import Mathlib.Data.Fin.VecNotation
import Mathlib.Tactic.FinCases
/-!
# Passes that overlap

However the lives of many passes interleave, each pass is what it is alone but for its id, and none
of them waits for another one.
-/
namespace PauseCleanup.Pass

open Host (Query Answer)

/-- The numbers of a pass without its id. -/
def numbersOnly (m : Metrics) : Bool × Tally := (m.unloading, m.counts)

theorem Stage.Alike.numbers {ι : Type} {s s' : Stage ι} (h : s.Alike s') :
    s.numbers?.map numbersOnly = s'.numbers?.map numbersOnly := by
  cases h with
  | opening h => rfl
  | working id plan hmem hcalls => rfl
  | closing id plan hmem =>
    rw [numbers?, numbers?, hmem]
    rfl

namespace Process

variable {κ : Type} {ι : κ → Type} [DecidableEq κ] [Fintype κ] [∀ k, DecidableEq (ι k)]
  [∀ k, Fintype (ι k)]

abbrev after (c : (k : κ) → Commission (ι k)) (l : Ledger)
    (turns : List (Turn ((k : κ) × Actor (ι k)) Answer)) : Process κ ι :=
  (start l).run c turns

/-- The passes of a process, and what they make of its ledger, after these turns. -/
structure Separate (units : List UnitId) (c : (k : κ) → Commission (ι k)) (l : Ledger)
    (turns : List (Turn ((k : κ) × Actor (ι k)) Answer)) : Prop where
  aborted : (after c l turns).aborted = none
  /-- A pass that has its id before another one has got any keeps it, and the id of the other one
  will be greater. -/
  ids : ∀ past future, turns = past ++ future → ∀ j k a b,
    ((after c l past).stages j).pass? = some a → ((after c l past).stages k).pass? = none →
    ((after c l turns).stages k).pass? = some b →
      ((after c l turns).stages j).pass? = some a ∧ a.number < b.number
  unloads : ∀ k u pass unloading,
    ((after c l turns).stages k).times (.unload u pass unloading) ≤
      if u ∈ units ∧ ((after c l turns).stages k).pass? = some pass ∧
        unloading = (c k).request.unloading then 1 else 0
  complete : ∀ k, ((after c l turns).stages k).Worked → ∀ u pass unloading,
    ((after c l turns).stages k).times (.unload u pass unloading) =
      if u ∈ units ∧ ((after c l turns).stages k).pass? = some pass ∧
        unloading = (c k).request.unloading then 1 else 0
  /-- With its own turns alone, a pass would have the same numbers. -/
  alone : ∀ k, ((after c l turns).stages k).numbers?.map numbersOnly =
    ((after c l (turns.filter fun t => t.caller.1 = k)).stages k).numbers?.map numbersOnly
  totals : (∀ k, ((after c l turns).stages k).AtRest) → (after c l turns).ledger.totals =
    l.totals + ∑ k, ((after c l turns).stages k).numbers?.elim 0 Metrics.share
  history : (∀ k, ((after c l turns).stages k).AtRest) → ∃ order : List κ, order.Nodup ∧
    (∀ k, k ∈ order ↔ ((after c l turns).stages k).numbers?.isSome = true) ∧
    (after c l turns).ledger.history = Ledger.latest
      (l.history ++ order.filterMap fun k => ((after c l turns).stages k).numbers?)

variable {host : (q : Query) → Answer q} {units : List UnitId} {c : (k : κ) → Commission (ι k)}
  {l : Ledger}

theorem ids_grow (hhost : Dependable host units) (hc : ∀ k, (c k).Good)
    (hfew : l.nextPass.toNat + Fintype.card κ ≤ 18446744073709551616)
    {past future : List (Turn ((k : κ) × Actor (ι k)) Answer)}
    (hpast : ∀ t ∈ past, t.Returns host) (hfuture : ∀ t ∈ future, t.Returns host) {j k : κ}
    {a b : PassId} (ha : ((after c l past).stages j).pass? = some a)
    (hnone : ((after c l past).stages k).pass? = none)
    (hb : ((after c l (past ++ future)).stages k).pass? = some b) :
    ((after c l (past ++ future)).stages j).pass? = some a ∧ a.number < b.number := by
  have hsound : (after c l past).Sound host units c := (sound_start l).run hhost hc hpast
  have hnumbered := (numbered_start l).run (sound_start l) hhost hc hpast hfew
  have hlater := hnumbered.later hsound hhost hc hfuture hfew
  rw [after, run_append] at hb ⊢
  have hlt := hnumbered.below j a ha
  refine ⟨?_, UInt64.lt_iff_toNat_lt.2 ?_⟩
  · rcases hlater j with hkept | ⟨hnever, -⟩
    · rw [hkept, ha]
    · rw [ha] at hnever
      cases hnever
  · rcases hlater k with hkept | ⟨-, b', hb', hge⟩
    · rw [hkept, hnone] at hb
      cases hb
    · obtain rfl : b' = b := Option.some.inj (hb'.symm.trans hb)
      omega

/-- Overlapping passes do not interfere, and none of them keeps another one from its end. The
history of the ledger is not longer than the ledger itself lets it become. -/
theorem overlapping_passes_do_not_interfere (hhost : Dependable host units)
    (hc : ∀ k, (c k).Good)
    (hfew : l.nextPass.toNat + Fintype.card κ ≤ 18446744073709551616)
    (hsize : l.history.length ≤ Ledger.historySize) :
    (∀ turns : List (Turn ((k : κ) × Actor (ι k)) Answer), (∀ t ∈ turns, t.Returns host) →
      Separate units c l turns) ∧
    ∀ schedule : ℕ → Turn ((k : κ) × Actor (ι k)) Answer, (∀ n, (schedule n).Returns host) →
      Fair schedule → ∃ n, ∀ k, ((after c l (upTo schedule n)).stages k).Closed := by
  refine ⟨fun turns hturns => ?_, fun schedule hturns hfair =>
    (sound_start l).all_closed hhost hc hturns hfair⟩
  have hsound : (after c l turns).Sound host units c := (sound_start l).run hhost hc hturns
  have hbalanced : (after c l turns).Balanced l :=
    (balanced_start hsize).run (sound_start l) hhost hc hturns
  have hapart := apart_run c l turns
  constructor
  case aborted => exact hsound.aborted
  case ids =>
    rintro past future rfl j k a b ha hnone hb
    exact ids_grow hhost hc hfew (fun t ht => hturns t (List.mem_append_left _ ht))
      (fun t ht => hturns t (List.mem_append_right _ ht)) ha hnone hb
  case unloads =>
    intro k u pass unloading
    exact Stage.times_unload_le u pass unloading (hsound.stages k) hhost (hc k) (hapart k)
  case complete =>
    intro k hworked u pass unloading
    exact Stage.times_unload_eq u pass unloading (hsound.stages k) hhost (hc k) (hapart k) hworked
  case alone =>
    intro k
    exact ((sound_start l).alike_run (sound_start l) hhost hc hturns
      (.opening ⟨⟨0⟩, rfl⟩)).numbers
  case totals => exact fun hrest => (hbalanced.at_rest hrest).1
  case history => exact fun hrest => (hbalanced.at_rest hrest).2

def smallCommission (k : Fin 2) : Commission (Fin 2) where
  request := { smallRequest with unloading := k = 0 }
  ids := ![0, 1]
  thread := ⟨k⟩

theorem smallCommission_good (k : Fin 2) : (smallCommission k).Good where
  fits := rfl
  inRange := show ∀ i, ![0, 1] i < smallRequest.workers by decide
  zero := ⟨0, rfl⟩

def smallSchedule : ℕ → Turn ((_ : Fin 2) × Actor (Fin 2)) Answer :=
  inTurn smallHost ⟨0, .opener⟩ [⟨1, .opener⟩, ⟨0, .worker 0⟩, ⟨1, .worker 0⟩, ⟨0, .worker 1⟩,
    ⟨1, .worker 1⟩, ⟨0, .closer⟩, ⟨1, .closer⟩]

theorem smallSchedule_fair : Fair smallSchedule := fair_inTurn smallHost fun ⟨k, a⟩ => by
  cases a with
  | worker i => fin_cases k <;> fin_cases i <;> simp
  | _ => fin_cases k <;> simp

/-- Both passes are opened before a worker has begun, and the second one is closed while the first
one is still at its classes. -/
def smallOverlap : List (Turn ((_ : Fin 2) × Actor (Fin 2)) Answer) := upTo smallSchedule 800

theorem overlapping_passes_do_not_interfere_small :
    let p := after smallCommission {} smallOverlap
    (∀ k, (p.stages k).AtRest) ∧ p.ledger.totals.passes = 2 ∧
      p.ledger.history.map (·.pass) = [⟨2⟩, ⟨1⟩] ∧
        Separate smallUnits smallCommission {} smallOverlap ∧
          ∃ n, ∀ k, ((after smallCommission {} (upTo smallSchedule n)).stages k).Closed := by
  intro p
  have hhost : Dependable smallHost smallUnits :=
    ⟨smallUnits_stable, UInt64.le_iff_toNat_le.2 (Nat.zero_le _), rfl⟩
  have hsmall := overlapping_passes_do_not_interfere (l := {}) hhost smallCommission_good
    (by decide) (by decide)
  have hturns : ∀ n, (smallSchedule n).Returns smallHost := fun _ _ => rfl
  refine ⟨?_, ?_, ?_, hsmall.1 smallOverlap fun t ht => ?_,
    hsmall.2 smallSchedule hturns smallSchedule_fair⟩
  · decide +kernel
  · decide +kernel
  · decide +kernel
  · obtain ⟨n, -, rfl⟩ := List.mem_map.1 ht
    exact hturns n

end Process

end PauseCleanup.Pass
