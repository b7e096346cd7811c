import PauseCleanup.Proofs.Unloading.Worker
/-!
# What a worker of an unloading has in its hand

A batch in a worker's hand never grows beyond what one claim takes. When a call panics, the unit
that it has just asked for is gone, with those behind it.
-/
namespace PauseCleanup

open Host (Query Answer)

theorem Move.Ensures.of_panic {Q Mem State Result : Type} {A : Q → Type} {may : Reply A → Prop}
    {mem : Mem} (mv : Move A Mem State Result) :
    mv.Ensures may (fun m c _ => ∀ cause, c = .panicked cause → m = mem) mem := by
  cases mv with
  | access m s notices =>
    intro cause h
    cases h
  | ask q resume rescue => exact fun _ _ _ _ => rfl
  | abort reason => trivial
  | _ => exact fun _ _ => rfl

namespace Frontier.Claim

variable {may : Reply Answer → Prop} {units : List UnitId} {max : BatchSize} {f f' : Frontier}

theorem Moved.length_held_le {c : Claim} {c' : Progress Claim Batch}
    (h : Moved may units max f c f' c') (hc : c.Sound units max)
    (hle : (held (.running c)).length ≤ max.val.toNat) :
    (held c').length ≤ max.val.toNat := by
  cases h.yields with
  | nothing _ hb =>
    rcases hb with hb | ⟨-, hb⟩
    · rwa [held, hb]
    · simp [held, hb]
  | batch =>
    obtain ⟨-, htake, -⟩ := Sound.exchange hc
    simp only [held, brings, Option.getD_some]
    rw [htake]
    exact List.length_take_le _ _

theorem held_of_panics (max : BatchSize) (f : Frontier) (c : Claim) : (c.move max f).Ensures may
    (fun _ c' _ => ∀ cause, c' = .panicked cause → held (.running c) = []) f := by
  cases c with
  | done b =>
    intro cause h
    cases h
  | allocate =>
    simp only [move]
    split <;> exact fun _ _ => rfl
  | load lost stale =>
    simp only [move]
    split <;> exact fun _ _ => rfl
  | walk lost seen mark taken room =>
    cases room with
    | zero => exact fun _ _ => rfl
    | succ room => exact fun _ _ _ _ => rfl
  | arrive lost seen u taken room =>
    simp only [move]
    split <;> exact fun _ _ => rfl
  | exchange lost seen last taken =>
    simp only [move]
    split <;> exact fun _ _ => rfl

end Frontier.Claim

namespace Unloading

open OneShot (Try)
open Frontier (Claim)

namespace Worker

/-- The units in the hand of a worker, with the one that it is about to unload or to count. -/
def hand : Progress Worker ℕ → List UnitId
  | .running (.claim _ c) => Claim.held (.running c)
  | .running (.batch _ us) => us
  | .running (.unload _ us _) => us
  | .running (.count _ us _) => us
  | .running (.tally _ us _) => us
  | _ => []

/-- How many units a worker may have in its hand: before it has a buffer, the first unit alone. -/
def handful (p : Plan) : Progress Worker ℕ → ℕ
  | .running (.unload _ _ false) => 1
  | .running (.count _ _ false) => 1
  | .running (.tally _ _ false) => 1
  | _ => p.batch.val.toNat

def Fits (p : Plan) (c : Progress Worker ℕ) : Prop := (hand c).length ≤ handful p c

variable {may : Reply Answer → Prop} {units : List UnitId} {p : Plan} {id : UInt32}

theorem fits_nil {c : Progress Worker ℕ} (h : hand c = []) : Fits p c := by
  rw [Fits, h]
  exact Nat.zero_le _

theorem Fits.sublist {c c' : Progress Worker ℕ} (h : Fits p c) (hhand : (hand c').Sublist (hand c))
    (hful : handful p c' = handful p c) : Fits p c' := by
  rw [Fits, hful]
  exact hhand.length_le.trans h

variable {host : (q : Query) → Answer q} {here : Option UnitId}

theorem move_fits (hmay : Steady host may)
    (hchain : Chain (fun u => host (.nextAlive u)) here units) {t : Tallied Shared}
    (hf : t.own.frontier.Valid units) {s : Worker} (hs : Knows may units p id t.own (.running s))
    (hfits : Fits p (.running s)) : (s.move p t).Ensures may (fun _ c _ => Fits p c) t := by
  cases s with
  | start id' =>
    simp only [move]
    split <;> exact fits_nil rfl
  | enter id' =>
    refine fits_nil ?_
    unfold afterEnter
    split
    · split <;> rfl
    · rfl
  | first u attempt =>
    refine (Try.move_ensures (0 : ℕ) hs.2).lift rfl ?_ ?_ ?_
    · exact fun _ _ _ _ => fits_nil rfl
    · intro won _
      cases won with
      | true => exact Nat.le_refl 1
      | false => exact fits_nil rfl
    · exact fun _ _ _ => fits_nil rfl
  | buffer total =>
    simp only [move]
    split <;> exact fits_nil rfl
  | claim total c =>
    refine (Claim.move_ensures hmay hchain hf hs.2).lift rfl ?_ ?_ ?_
    · exact fun _ _ _ h => h.length_held_le hs.2.sound hfits
    · intro b h
      have hle := h.length_held_le hs.2.sound hfits
      by_cases hb : b.units = []
      · simp only [hb, if_true]
        exact fits_nil rfl
      · simp only [hb, if_false]
        exact hle
    · exact fun _ _ _ => fits_nil rfl
  | batch total us => exact hfits
  | unload total us opened =>
    cases us with
    | nil =>
      simp only [move]
      split <;> exact fits_nil rfl
    | cons u us =>
      intro a _
      cases a with
      | error cause => exact fits_nil rfl
      | ok a => cases opened <;> exact hfits
  | count total us opened => cases opened <;> exact hfits
  | tally total us opened =>
    cases opened <;> exact hfits.sublist (List.tail_sublist us) rfl
  | done total => exact fits_nil rfl

/-- The rest of a batch that was cut short by a panic of the host while it unloaded a unit. -/
def cutShort : Worker → Progress Worker ℕ → Option (List UnitId)
  | .unload _ (_ :: us) true, .panicked _ => some us
  | _, _ => none

theorem cutShort_of_calm {s : Worker} {c : Progress Worker ℕ} (h : ∀ cause, c ≠ .panicked cause) :
    cutShort s c = none := by
  unfold cutShort
  split
  · next cause => exact absurd rfl (h cause)
  · rfl

/-- A call that panics loses from its hand what it has not asked for: the rest of a batch. -/
theorem move_loses (t : Tallied Shared) {s : Worker} (hfits : Fits p (.running s)) :
    (s.move p t).Ensures may (fun _ c l => ∀ cause, c = .panicked cause →
      owes p (.running s) = chores l + p.asks ((cutShort s c).getD [])) t := by
  cases s with
  | start id =>
    simp only [move]
    split <;> exact fun _ _ => rfl
  | enter id => exact fun _ h => by cases h
  | first u attempt =>
    cases attempt with
    | done won =>
      intro _ h
      cases won <;> cases h
    | _ => exact fun _ h => by cases h
  | buffer total =>
    simp only [move]
    split <;> exact fun _ _ => rfl
  | claim total c =>
    refine ((c.held_of_panics p.batch t.own.frontier).and (c.asks_next _ _)).lift rfl ?_ ?_ ?_
    · exact fun _ _ _ _ _ h => by cases h
    · intro b _
      by_cases hb : b.units = []
      · simp only [hb, if_true]
        exact fun _ h => by cases h
      · simp only [hb, if_false]
        exact fun _ h => by cases h
    · intro cause l h cause' _
      obtain ⟨hnil, hl⟩ := h
      have hheld : Claim.held (.running c) = [] := hnil cause rfl
      rw [owes, hheld, chores_of_next hl]
      rfl
  | unload total us opened =>
    cases us with
    | nil =>
      simp only [move]
      split <;> exact fun _ h => by cases h
    | cons u us =>
      intro a _
      cases a with
      | error cause =>
        intro _ _
        cases opened with
        | true => exact Plan.asks_cons p u us
        | false =>
          -- The first unit has nothing behind it.
          have hone : us.length + 1 ≤ 1 := hfits
          have hnil : us = [] := List.length_eq_zero_iff.1 (by omega)
          rw [hnil]
          exact Plan.asks_cons p u []
      | ok a => exact fun _ h => by cases h
  | _ => exact fun _ h => by cases h

end Worker

end Unloading

end PauseCleanup
