import PauseCleanup.Proofs.Pool.Alone
import PauseCleanup.Race.OneShot
import Mathlib.Algebra.Group.Defs
/-!
# What an attempt at a one-shot ensures

A one-shot that is taken stays taken, and whoever leaves an attempt leaves it taken. What there is
to win lies either with the flag or with the one attempt that won.
-/
namespace PauseCleanup.OneShot

variable {Q M : Type} {A : Q → Type}

/-- A flag is never given back. -/
def Later (f f' : OneShot) : Prop := f.taken = true → f'.taken = true

def left [Zero M] (x : M) (f : OneShot) : M := if f.taken then 0 else x

@[simp] theorem left_fresh [Zero M] (x : M) : left x {} = x := rfl

theorem left_of_taken [Zero M] (x : M) {f : OneShot} (h : f.taken = true) : f.left x = 0 := by
  simp [left, h]

namespace Try

def Knows (f : OneShot) : Progress Try Bool → Prop
  | .running (.done _) => f.taken = true
  | .running _ => True
  | .returned _ => f.taken = true
  | .panicked _ => False

/-- What an attempt has won. -/
def held [Zero M] (x : M) : Progress Try Bool → M
  | .running (.done won) => if won then x else 0
  | .returned won => if won then x else 0
  | _ => 0

@[simp] theorem held_returned [Zero M] (x : M) (won : Bool) :
    held x (.returned won) = if won then x else 0 := rfl

theorem knows_stable {f f' : OneShot} {c : Progress Try Bool} (h : Later f f') (hc : Knows f c) :
    Knows f' c := by
  cases c with
  | running t =>
    cases t with
    | done won => exact h hc
    | look => trivial
    | exchange => trivial
  | returned won => exact h hc
  | panicked cause => exact hc

/-- What there is to win is neither lost nor doubled, wherever the attempt stands. -/
theorem move_keeps [AddCommMonoid M] (x : M) {may : Reply A → Prop} (f : OneShot) (t : Try) :
    (t.move f : Move A OneShot Try Bool).Ensures may (fun f' c l => Later f f' ∧ l = [] ∧
      f'.left x + held x c = f.left x + held x (.running t)) f := by
  cases t with
  | look =>
    rw [move_look]
    cases h : f.taken <;> simp [Move.Ensures, Later, held, h]
  | exchange =>
    rw [move_exchange]
    cases h : f.taken <;> simp [Move.Ensures, Later, held, left, h]
  | done won =>
    rw [move_done]
    exact ⟨id, rfl, rfl⟩

theorem move_knows {may : Reply A → Prop} {f : OneShot} {t : Try} (ht : Knows f (.running t)) :
    (t.move f : Move A OneShot Try Bool).Ensures may (fun f' c _ => Knows f' c) f := by
  cases t with
  | look =>
    rw [move_look]
    cases h : f.taken <;> simp [Move.Ensures, Knows, h]
  | exchange => simp [Move.Ensures, Knows]
  | done won => exact ht

theorem move_ensures [AddCommMonoid M] (x : M) {may : Reply A → Prop} {f : OneShot} {t : Try}
    (ht : Knows f (.running t)) : (t.move f : Move A OneShot Try Bool).Ensures may
      (fun f' c l => Knows f' c ∧ Later f f' ∧ l = [] ∧
        f'.left x + held x c = f.left x + held x (.running t)) f :=
  (move_knows ht).and (move_keeps x f t)

def toGo : Try → ℕ
  | .look => 2
  | .exchange => 1
  | .done _ => 0

theorem move_below {may : Reply A → Prop} (f : OneShot) (t : Try) :
    (t.move f : Move A OneShot Try Bool).Ensures may (Pool.Below toGo t.toGo) f := by
  cases t with
  | look =>
    rw [move_look]
    cases f.taken <;> simp [Move.Ensures, Pool.Below, toGo]
  | exchange => simp [Move.Ensures, Pool.Below, toGo]
  | done won => simp [Move.Ensures, Pool.Below]

end Try

end PauseCleanup.OneShot
