import PauseCleanup.Proofs.Pool.Weights
import PauseCleanup.Host
import Mathlib.Algebra.Order.Group.Multiset
/-!
# Chores: what a pass has to ask of its host exactly once

A chore changes the host, and a pass owes it once to each unit, class or share. At every moment it
is still owed by the shared memory, in the hands of one call, or has been asked.
-/
namespace PauseCleanup

open Host (Query Answer)

namespace Host.Query

/-- Whether the question is a chore, or the kind of a class, which is also asked once. -/
def isChore : Query → Bool
  | .unload .. | .kindOf _ | .cleanTree | .cleanLinks _ | .unlink .. | .releaseMetadata _ => true
  | _ => false

def isRelease : Query → Bool
  | .releaseMetadata _ => true
  | _ => false

end Host.Query

def chores (l : List (Reply Answer)) : Multiset Query := ↑((l.map (·.1)).filter Query.isChore)

@[simp] theorem chores_nil : chores [] = 0 := rfl

theorem chores_cons (r : Reply Answer) (l : List (Reply Answer)) :
    chores (r :: l) = chores [r] + chores l := by
  cases h : r.1.isChore <;> simp [chores, h]

theorem sum_chores (l : List (Reply Answer)) : (l.map fun r => chores [r]).sum = chores l := by
  induction l with
  | nil => rfl
  | cons r l ih => rw [List.map_cons, List.sum_cons, ih, ← chores_cons]

theorem count_chores {q : Query} (hq : q.isChore = true) (l : List (Reply Answer)) :
    (chores l).count q = l.countP fun r => r.1 = q := by
  rw [chores, Multiset.coe_count, List.count_filter hq, List.count, List.countP_map]
  rfl

theorem count_coe_of_nodup {qs : List Query} (h : qs.Nodup) (q : Query) :
    (↑qs : Multiset Query).count q = if q ∈ qs then 1 else 0 := by
  rw [Multiset.coe_count, h.count]

section

variable {State Result : Type}

/-- What was owed before a move is owed, held or asked after it; only a call that panics may let
something go. -/
structure Settles (c : Progress State Result) (after before : Multiset Query) : Prop where
  le : after ≤ before
  eq : (∀ cause, c ≠ .panicked cause) → after = before

theorem Settles.of_eq {c : Progress State Result} {after before : Multiset Query}
    (h : after = before) : Settles c after before :=
  ⟨h.le, fun _ => h⟩

theorem Settles.of_panic {cause : Panic} {after before : Multiset Query} (h : after ≤ before) :
    Settles (.panicked cause : Progress State Result) after before :=
  ⟨h, fun hc => absurd rfl (hc cause)⟩

variable {SubState SubResult : Type} {inner : Progress SubState SubResult}
  {a a' o o' l : Multiset Query}

theorem Settles.beside (h : Settles inner (a' + o' + l) (a + o)) {c : Progress State Result}
    (hc : ∀ cause, inner = .panicked cause → c = .panicked cause) (x : Multiset Query) :
    Settles c (a' + x + o' + l) (a + x + o) := by
  have hafter : a' + x + o' + l = (a' + o' + l) + x := by abel
  have hbefore : a + x + o = (a + o) + x := by abel
  rw [hafter, hbefore]
  refine ⟨add_le_add h.le le_rfl, fun hn => ?_⟩
  rw [h.eq fun cause he => hn cause (hc cause he)]

/-- The account of an embedded call, beside what the rest of the memory owes (`x`) and what the
outer call owes on its own (`y`). -/
theorem Settles.frame (h : Settles inner (a' + o' + l) (a + o))
    (hinner : ∀ cause, inner ≠ .panicked cause) (x y : Multiset Query) (c : Progress State Result) :
    Settles c (a' + x + (o' + y) + l) (a + x + (o + y)) := by
  apply Settles.of_eq
  calc a' + x + (o' + y) + l = (a' + o' + l) + (x + y) := by abel
    _ = (a + o) + (x + y) := by rw [h.eq hinner]
    _ = a + x + (o + y) := by abel

/-- An embedded call that panics takes down what the outer call owes on its own. -/
theorem Settles.frame_panic (h : Settles inner (a' + o' + l) (a + o)) (x y : Multiset Query)
    (cause : Panic) :
    Settles (.panicked cause : Progress State Result) (a' + x + o' + l) (a + x + (o + y)) := by
  apply Settles.of_panic
  calc a' + x + o' + l = (a' + o' + l) + x := by abel
    _ ≤ (a + o) + x := add_le_add h.le le_rfl
    _ ≤ (a + o) + x + y := Multiset.le_add_right _ _
    _ = a + x + (o + y) := by abel

end

end PauseCleanup
