import PauseCleanup.Proofs.Pass.Life
/-!
# The closing of a pass with nothing to find

If the count of a pass is right and its host finds nothing either, a closing in which nothing panics
closes the pass and returns.
-/
namespace PauseCleanup

open Host (Query Answer)

variable {host : (q : Query) → Answer q}

namespace Unloading.Closing

def Sound : Progress Closing Unit → Prop
  | .running (.check (.done found)) => found = none
  | .running (.fatal _) => False
  | .panicked _ => False
  | _ => True

theorem move_sound {p : Plan} {m : Shared} (hcount : checkCount p.expected m.unloaded = none)
    (hcheck : host .checkCode = none) (unwinding : Bool) {s : Closing} (hs : Sound (.running s)) :
    (s.move p unwinding m).Ensures (returning host) (fun m' c _ => m' = m ∧ Sound c) m := by
  cases s with
  | start =>
    simp only [move]
    split <;> exact ⟨rfl, trivial⟩
  | check c =>
    cases c with
    | start =>
      simp only [move, Check.move, hcount, Move.lift_access]
      split
      · exact ⟨rfl, trivial⟩
      · exact ⟨rfl, rfl⟩
    | host =>
      intro found hfound
      obtain rfl : found = .ok none := hfound.trans (congrArg Except.ok hcheck)
      exact ⟨rfl, rfl⟩
    | done found =>
      obtain rfl : found = none := hs
      exact ⟨rfl, trivial⟩
  | fatal v => exact hs.elim
  | done => exact ⟨rfl, trivial⟩

end Unloading.Closing

namespace Pass

namespace Closing

/-- Nothing has been found and nothing has panicked so far. -/
def Sound : Progress Closing Unit → Prop
  | .running (.check s) => Unloading.Closing.Sound (.running s)
  | .running (.sweep s raised) => s ≠ .torn ∧ raised = none
  | .running (.leave raised) => raised = none
  | .running (.done raised) => raised = none
  | .panicked _ => False
  | _ => True

theorem move_sound {p : Plan} {e : Estate}
    (hcount : Unloading.checkCount p.code.expected e.shared.code.unloaded = none)
    (hcheck : host .checkCode = none) (t : Thread) {s : Closing} (hs : Sound (.running s)) :
    (s.move p t .calm e).Ensures (returning host)
      (fun e' c _ => e'.shared = e.shared ∧ Sound c) e := by
  cases s with
  | start => exact ⟨rfl, trivial⟩
  | record numbers s => cases s <;> exact ⟨rfl, trivial⟩
  | check s =>
    refine (Unloading.Closing.move_sound hcount hcheck _ hs).lift rfl ?_ ?_ ?_
    · intro code s' l h
      obtain ⟨rfl, hs'⟩ := h
      exact ⟨rfl, hs'⟩
    · intro _ _
      exact ⟨rfl, TableSweep.Closing.noConfusion, rfl⟩
    · intro cause l h
      exact h.2.elim
  | sweep s raised =>
    obtain ⟨hne, rfl⟩ := hs
    cases s with
    | start =>
      by_cases henabled : p.sweep.enabled = true
      · simp only [move, TableSweep.Closing.move, if_pos henabled]
        intro a ha
        obtain rfl : a = .ok () := ha
        exact ⟨rfl, TableSweep.Closing.noConfusion, rfl⟩
      · simp only [move, TableSweep.Closing.move, if_neg henabled]
        exact ⟨rfl, TableSweep.Closing.noConfusion, rfl⟩
    | torn => exact absurd rfl hne
    | done => exact ⟨rfl, rfl⟩
  | leave raised => exact ⟨rfl, hs⟩
  | done raised =>
    obtain rfl : raised = none := hs
    exact ⟨rfl, trivial⟩

end Closing

/-- A calm closing of a pass whose checks find nothing does not abort, and with enough turns it
returns. -/
theorem calm_closing {p : Plan} {m : Shared}
    (hcount : Unloading.checkCount p.code.expected m.code.unloaded = none)
    (hcheck : host .checkCode = none) (t : Thread) (ledger : Ledger)
    {turns : List (Turn Unit Answer)} (hturns : ∀ t ∈ turns, t.Returns host) :
    (closing p t .calm ⟨m, ledger⟩ turns).aborted = none ∧
      (19 < turns.length → (closing p t .calm ⟨m, ledger⟩ turns).calls () = .returned ()) := by
  have htold : (closing p t .calm ⟨m, ledger⟩ turns).Told (fun e s => s.move p t .calm e)
      fun _ e c => e.shared = m ∧ Closing.Sound c := by
    have hwithin : ∀ t ∈ turns, t.Within (returning host) := hturns
    refine Pool.told_alone (fun _ e s hs => ?_) ⟨rfl, trivial⟩ hwithin
    obtain ⟨rfl, hsound⟩ := hs
    exact (Closing.move_sound hcount hcheck t hsound).mono fun _ _ _ h => h
  have haborted : (closing p t .calm ⟨m, ledger⟩ turns).aborted = none := by
    cases ha : (closing p t .calm ⟨m, ledger⟩ turns).aborted with
    | none => rfl
    | some reason =>
      obtain ⟨s, hc, hmove⟩ := htold.aborted reason ha
      have hsound := htold.story.2
      rw [hc] at hsound
      -- Neither of the two ways to abort is open: nothing was found, and nothing has panicked.
      rcases Closing.move_eq_abort hmove with ⟨v, rfl, _⟩ | ⟨raised, rfl, _⟩
      · exact hsound.elim
      · exact absurd rfl hsound.1
  refine ⟨haborted, fun hlen => ?_⟩
  cases htold.ending (closing_ends p t .calm ⟨m, ledger⟩ hlen) with
  | aborted ha _ _ _ => exact absurd (haborted.symm.trans ha) (Option.some_ne_none _).symm
  | returned _ hc _ => exact hc
  | panicked _ _ hstory => exact hstory.2.elim

end Pass

end PauseCleanup
