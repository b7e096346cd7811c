import PauseCleanup.Ledger
import PauseCleanup.Proofs.Pool.Alone
/-!
# The entry of one pass

A pass is entered into the ledger in eight moves at most, whatever other passes enter in between.
-/
namespace PauseCleanup.Ledger.Record

variable {Q : Type} {A : Q → Type}

theorem quiet (may : Reply A → Prop) (t : Thread) (m : Metrics) (l : Ledger) (s : Record) :
    (s.move t m l).Ensures may (fun _ c l => l = [] ∧ ∀ cause, c ≠ .panicked cause) l := by
  cases s <;> simp [move, Move.Ensures]

/-- How many moves of a record are left before the one that ends it. -/
def rank : Record → Nat
  | .last => 7
  | .passes => 6
  | .withUnloading => 5
  | .units => 4
  | .cleaned => 3
  | .retries => 2
  | .history => 1
  | .done => 0

theorem rank_le (s : Record) : s.rank ≤ 7 := by
  cases s <;> decide

theorem rank_step (may : Reply A → Prop) (t : Thread) (m : Metrics) (l : Ledger) (s : Record) :
    (s.move t m l).Ensures may (Pool.Below rank s.rank) l := by
  cases s with
  | passes =>
    rintro _ ⟨⟩
    split <;> decide
  | done => rintro _ ⟨⟩
  | _ =>
    rintro _ ⟨⟩
    decide

end PauseCleanup.Ledger.Record
