import PauseCleanup.Proofs.Chores
import PauseCleanup.Proofs.OneShot
import PauseCleanup.MetadataRelease
/-!
# What a worker of a metadata release ensures

The release is due only if classes were unloaded and the host has a compiler that is switched on. If
it is due, it is owed by the one-shot until a worker has won it.
-/
namespace PauseCleanup.MetadataRelease

open Host (Query Answer)
open OneShot (Try)

/-- Whether the metadata is to be released. -/
def isDue (host : (q : Query) → Answer q) (present unloading : Bool) : Bool :=
  unloading && present && host .metadataEnabled

def due (host : (q : Query) → Answer q) (present unloading : Bool) : Multiset Query :=
  if isDue host present unloading then {.releaseMetadata unloading} else 0

namespace Worker

variable {host : (q : Query) → Answer q} {may : Reply Answer → Prop} {present unloading : Bool}
  {f f' : OneShot}

def Knows (host : (q : Query) → Answer q) (may : Reply Answer → Prop) (present unloading : Bool)
    (f : OneShot) :
    Progress Worker Bool → Prop
  | .running .start => True
  | .running (.claim t) => isDue host present unloading = true ∧ Try.Knows f (.running t)
  | .running .release => isDue host present unloading = true ∧ f.taken = true
  | .running .released => f.taken = true
  | .running (.done _) => isDue host present unloading = true → f.taken = true
  | .returned _ => isDue host present unloading = true → f.taken = true
  | .panicked _ => MayPanic may

/-- What is in the hands of a worker. -/
def owes (host : (q : Query) → Answer q) (present unloading : Bool) :
    Progress Worker Bool → Multiset Query
  | .running (.claim t) => Try.held (due host present unloading) (.running t)
  | .running .release => due host present unloading
  | _ => 0

theorem knows_stable {c : Progress Worker Bool} (h : f.Later f')
    (hc : Knows host may present unloading f c) : Knows host may present unloading f' c := by
  cases c with
  | running s =>
    cases s with
    | start => trivial
    | claim t => exact ⟨hc.1, Try.knows_stable h hc.2⟩
    | release => exact ⟨hc.1, h hc.2⟩
    | released => exact h hc
    | done ran => exact fun hd => h (hc hd)
  | returned ran => exact fun hd => h (hc hd)
  | panicked cause => exact hc

/-- What one move of a worker does. -/
structure Moved (host : (q : Query) → Answer q) (may : Reply Answer → Prop)
    (present unloading : Bool) (f : OneShot) (s : Worker) (f' : OneShot) (c : Progress Worker Bool)
    (l : List (Reply Answer)) : Prop where
  knows : Knows host may present unloading f' c
  later : f.Later f'
  settles : Settles c
    (f'.left (due host present unloading) + owes host present unloading c + chores l)
    (f.left (due host present unloading) + owes host present unloading (.running s))

theorem Moved.still {s : Worker} {c : Progress Worker Bool} {l : List (Reply Answer)}
    (hc : Knows host may present unloading f c)
    (ho : owes host present unloading c = owes host present unloading (.running s))
    (hl : chores l = 0) : Moved host may present unloading f s f c l :=
  ⟨hc, fun h => h, .of_eq (by rw [ho, hl, add_zero])⟩

theorem move_ensures (hmay : Steady host may) {t : Tallied OneShot} {s : Worker}
    (hs : Knows host may present unloading t.own (.running s)) :
    (s.move present unloading t).Ensures may
      (fun t' c l => Moved host may present unloading t.own s t'.own c l) t := by
  cases s with
  | start =>
    simp only [move]
    split
    · next h =>
      intro enabled ha
      cases enabled with
      | error cause => exact .still ⟨_, _, ha⟩ rfl rfl
      | ok enabled =>
        -- A steady host answers now as it would at any time.
        have henabled : enabled = host .metadataEnabled := hmay _ _ ha
        cases enabled with
        | true =>
          have hdue : isDue host present unloading = true := by rw [isDue, h, ← henabled]; rfl
          exact .still ⟨hdue, trivial⟩ rfl rfl
        | false =>
          have hdue : isDue host present unloading = false := by rw [isDue, h, ← henabled]; rfl
          exact .still (fun hd => by simp [hdue] at hd) rfl rfl
    · next h =>
      refine .still (fun hd => ?_) rfl rfl
      rw [isDue, Bool.and_eq_true] at hd
      exact absurd hd.1 h
  | claim attempt =>
    obtain ⟨hdue, ht⟩ := hs
    refine (Try.move_ensures (due host present unloading) ht).lift rfl ?_ ?_ ?_
    · intro flag next l hinner
      obtain ⟨hk, hlater, rfl, hb⟩ := hinner
      exact ⟨⟨hdue, hk⟩, hlater, .of_eq (by simpa [owes] using hb)⟩
    · intro won hinner
      obtain ⟨hk, hlater, -, hb⟩ := hinner
      cases won with
      | true => exact ⟨⟨hdue, hk⟩, hlater, .of_eq (by simpa [owes] using hb)⟩
      | false => exact ⟨fun _ => hk, hlater, .of_eq (by simpa [owes] using hb)⟩
    · intro cause l hinner
      obtain ⟨hk, -⟩ := hinner
      exact hk.elim
  | release =>
    obtain ⟨hdue, ht⟩ := hs
    have hchores : ∀ a, chores [⟨.releaseMetadata unloading, a⟩] = due host present unloading := by
      intro a
      rw [due, if_pos hdue]
      rfl
    -- Returned or panicked, the release was asked for, and the worker holds it no more.
    intro a ha
    cases a with
    | error cause =>
      refine ⟨⟨_, _, ha⟩, fun h => h, .of_eq ?_⟩
      rw [hchores]
      show _ + 0 + _ = _ + due host present unloading
      rw [add_zero]
    | ok a =>
      refine ⟨ht, fun h => h, .of_eq ?_⟩
      rw [hchores]
      show _ + 0 + _ = _ + due host present unloading
      rw [add_zero]
  | released => exact .still (fun _ => hs) rfl rfl
  | done ran => exact .still hs rfl rfl

end Worker

end PauseCleanup.MetadataRelease
